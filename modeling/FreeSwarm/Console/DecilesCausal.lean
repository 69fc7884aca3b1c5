import FreeSwarm.Console.Deciles
import Mathlib.Data.List.GetD
import Mathlib.Data.List.Pairwise
import Mathlib.Data.List.Sublists
import Mathlib.Algebra.Order.Field.Rat

/-!
# What a study knows of the rows

Rows that come after others change a bar only if they lie in it. What the study says about a bar is made of the
bars up to it, of the sessions before it, and of one bar of its own session.
-/

namespace FreeSwarm.Console

variable {V : Type} {num : Numbers V}

/-! ## Stretches of time -/

theorem truncate_mono (every : Nat) {t t' : Int} (le : t ≤ t') : truncate every t ≤ truncate every t' := by
  have start (u : Int) : truncate every u = every * (u / every) := by
    have parts := Int.mul_ediv_add_emod u every
    unfold truncate
    omega
  rw [start, start]
  by_cases none_ : every = 0
  · rw [none_]
    simp
  · have long : (0 : Int) < every := by omega
    exact Int.mul_le_mul_of_nonneg_left (Int.ediv_le_ediv long le) (by omega)

theorem dayOf_mono {t t' : Int} (le : t ≤ t') : dayOf t ≤ dayOf t' := truncate_mono dayLength le

theorem pairwise_eraseDups (values : List Int) (sorted : values.Pairwise (· ≤ ·)) :
    values.eraseDups.Pairwise (· < ·) := by
  match values with
  | [] => exact .nil
  | value :: rest =>
    obtain ⟨least, sorted⟩ := List.pairwise_cons.mp sorted
    have shorter : (rest.filter fun other => !other == value).length < rest.length + 1 :=
      Nat.lt_succ_of_le (List.length_filter_le _ rest)
    rw [List.eraseDups_cons]
    refine List.pairwise_cons.mpr ⟨fun other mem => ?_, pairwise_eraseDups _ (sorted.filter _)⟩
    rw [List.mem_eraseDups, List.mem_filter] at mem
    have le := least other mem.1
    have ne : other ≠ value := by simpa using mem.2
    omega
termination_by values.length

/-! ## Rows in order -/

def Ordered (rows : List (Tick V)) : Prop := rows.Pairwise fun row row' => row.t ≤ row'.t

namespace Ordered

variable {every : Nat} {rows more : List (Tick V)}

theorem byTime (ordered : Ordered rows) : byTime rows = rows :=
  List.mergeSort_of_pairwise (ordered.imp fun le => decide_eq_true le)

theorem bins (ordered : Ordered rows) : (bins every rows).Pairwise (· < ·) :=
  pairwise_eraseDups _ (List.pairwise_map.mpr (ordered.imp fun le => truncate_mono every le))

theorem resampleLast (ordered : Ordered rows) :
    resampleLast num every rows =
      (Console.bins every rows).map fun start => barOf num (inBin every rows start) := by
  have starts : ((Console.bins every rows).mergeSort fun start start' => start ≤ start') =
      Console.bins every rows :=
    List.mergeSort_of_pairwise (ordered.bins.imp fun lt => decide_eq_true (Int.le_of_lt lt))
  simp only [Console.resampleLast, ordered.byTime, starts]

theorem left (ordered : Ordered (rows ++ more)) : Ordered rows := (List.pairwise_append.mp ordered).1

theorem after (ordered : Ordered (rows ++ more)) {row row' : Tick V} (mem : row ∈ rows) (mem' : row' ∈ more) :
    row.t ≤ row'.t :=
  (List.pairwise_append.mp ordered).2.2 row mem row' mem'

end Ordered

structure LastIn (every : Nat) (rows : List (Tick V)) (start : Int) (row : Tick V) : Prop where
  mem : row ∈ rows
  lies : truncate every row.t = start
  latest : ∀ row' ∈ rows, truncate every row'.t = start → row'.t ≤ row.t

theorem barOf_lastIn (num : Numbers V) {every : Nat} {rows : List (Tick V)} (ordered : Ordered rows) {start : Int}
    (mem : start ∈ bins every rows) :
    ∃ row, LastIn every rows start row ∧ (barOf num (inBin every rows start)).t = row.t := by
  rw [bins, List.mem_eraseDups, List.mem_map] at mem
  obtain ⟨first, there, lies⟩ := mem
  have inside : first ∈ inBin every rows start :=
    List.mem_filter.mpr ⟨there, decide_eq_true lies⟩
  have some_ : inBin every rows start ≠ [] := List.ne_nil_of_mem inside
  have last := List.getLast?_eq_some_getLast some_
  have lastMem := List.mem_filter.mp (List.getLast_mem some_)
  refine ⟨(inBin every rows start).getLast some_, ⟨lastMem.1, of_decide_eq_true lastMem.2, ?_⟩, ?_⟩
  · intro row there' lies'
    have inside' : row ∈ inBin every rows start :=
      List.mem_filter.mpr ⟨there', decide_eq_true lies'⟩
    have sorted : Ordered (inBin every rows start) := ordered.filter _
    rw [← List.dropLast_append_getLast some_] at inside' sorted
    obtain early | same := List.mem_append.mp inside'
    · exact sorted.after early (List.mem_singleton_self _)
    · exact Int.le_of_eq (congrArg Tick.t (List.mem_singleton.mp same))
  · simp only [barOf, last, Option.map_some, Option.getD_some]

theorem known_mem (values : List V) : known num values = num.nan ∨ known num values ∈ values := by
  unfold known
  cases last : (values.filter fun value => !num.isNan value).getLast? with
  | none => exact .inl rfl
  | some value => exact .inr (List.mem_filter.mp (List.mem_of_getLast? last)).1

/-! ## Bars of more rows -/

/-- No row lies in the stretch of a bar. -/
def Bar.Complete (every : Nat) (more : List (Tick V)) (bar : Bar V) : Prop :=
  ∀ row ∈ more, truncate every row.t ≠ truncate every bar.t

variable {every : Nat} {rows more : List (Tick V)}

variable {bar : Bar V}

theorem bar_made (ordered : Ordered rows) {i : Nat}
    (here : (resampleLast num every rows)[i]? = some bar) :
    (bins every rows)[i]? = some (truncate every bar.t) ∧
      bar = barOf num (inBin every rows (truncate every bar.t)) ∧
        ∃ row, LastIn every rows (truncate every bar.t) row ∧ bar.t = row.t := by
  rw [ordered.resampleLast, List.getElem?_map] at here
  obtain ⟨start, at_, rfl⟩ := Option.map_eq_some_iff.mp here
  obtain ⟨row, last, stamp⟩ := barOf_lastIn num ordered (List.mem_of_getElem? at_)
  have lies : truncate every (barOf num (inBin every rows start)).t = start := by
    rw [stamp]
    exact last.lies
  rw [lies]
  exact ⟨at_, rfl, row, last, stamp⟩

theorem bar_day (ordered : Ordered rows) (mem : bar ∈ resampleLast num every rows) :
    bar.day = dayOf bar.t := by
  obtain ⟨i, here⟩ := List.mem_iff_getElem?.mp mem
  obtain ⟨-, made, -⟩ := bar_made ordered here
  rw [made]
  rfl

theorem Ordered.stamps (ordered : Ordered rows) :
    (Console.resampleLast num every rows).Pairwise fun bar bar' => bar.t < bar'.t := by
  rw [ordered.resampleLast, List.pairwise_map]
  refine ordered.bins.imp_of_mem fun {start start'} mem mem' before => ?_
  obtain ⟨row, last, stamp⟩ := barOf_lastIn num ordered mem
  obtain ⟨row', last', stamp'⟩ := barOf_lastIn num ordered mem'
  rw [stamp, stamp']
  by_contra late
  have le := truncate_mono every (Int.not_lt.mp late)
  rw [last.lies, last'.lies] at le
  omega

/-- The sessions are in order. -/
def InDays (bars : List (Bar V)) : Prop := bars.Pairwise fun bar bar' => bar.day ≤ bar'.day

theorem Ordered.inDays (ordered : Ordered rows) : InDays (Console.resampleLast num every rows) := by
  refine ordered.stamps.imp_of_mem fun {bar bar'} mem mem' before => ?_
  rw [bar_day ordered mem, bar_day ordered mem']
  exact dayOf_mono (Int.le_of_lt before)

theorem inBin_append {start : Int} (none_ : ∀ row ∈ more, truncate every row.t ≠ start) :
    inBin every (rows ++ more) start = inBin every rows start := by
  have empty : inBin every more start = [] :=
    List.filter_eq_nil_iff.mpr fun row mem lies => none_ row mem (of_decide_eq_true lies)
  unfold inBin at empty ⊢
  rw [List.filter_append, empty, List.append_nil]

theorem bins_append (every : Nat) (rows more : List (Tick V)) :
    ∃ rest, bins every (rows ++ more) = bins every rows ++ rest := by
  unfold bins
  rw [List.map_append, List.eraseDups_append]
  exact ⟨_, rfl⟩

theorem take_complete (ordered : Ordered (rows ++ more)) {i : Nat}
    (here : (resampleLast num every rows)[i]? = some bar) (complete : bar.Complete every more) :
    (resampleLast num every (rows ++ more)).take (i + 1) = (resampleLast num every rows).take (i + 1) := by
  obtain ⟨at_, -, row, last, stamp⟩ := bar_made ordered.left here
  obtain ⟨rest, append⟩ := bins_append every rows more
  refine List.ext_getElem? fun j => ?_
  rw [List.getElem?_take, List.getElem?_take]
  by_cases upTo : j < i + 1
  · rw [if_pos upTo, if_pos upTo, ordered.resampleLast, ordered.left.resampleLast, List.getElem?_map,
      List.getElem?_map, append]
    obtain ⟨inside, starts⟩ := List.getElem?_eq_some_iff.mp at_
    have inside' : j < (bins every rows).length := by omega
    rw [List.getElem?_append_left inside', List.getElem?_eq_getElem inside', Option.map_some, Option.map_some]
    have upTo' : (bins every rows)[j] ≤ truncate every bar.t := by
      by_cases same : j = i
      · subst same
        exact Int.le_of_eq starts
      · have before := List.pairwise_iff_getElem.mp ordered.left.bins j i inside' inside (by omega)
        omega
    rw [inBin_append fun row' mem lies => ?_]
    -- a later row is in no earlier stretch, and in the one of the bar it is not
    have le := truncate_mono every (ordered.after last.mem mem)
    have ne := complete row' mem
    rw [last.lies] at le
    omega
  · rw [if_neg upTo, if_neg upTo]

theorem bar_before (ordered : Ordered (rows ++ more)) {i : Nat}
    (here : (resampleLast num every (rows ++ more))[i]? = some bar) :
    (resampleLast num every rows)[i]? = some bar ∨ ∃ row ∈ more, row.t = bar.t := by
  obtain ⟨at_, made, row, last, stamp⟩ := bar_made ordered here
  by_cases touched : ∃ row' ∈ more, truncate every row'.t = truncate every bar.t
  · obtain ⟨row', mem, lies⟩ := touched
    refine .inr ?_
    obtain early | late := List.mem_append.mp last.mem
    · have le := ordered.after early mem
      have ge := last.latest row' (List.mem_append_right _ mem) lies
      exact ⟨row', mem, by omega⟩
    · exact ⟨row, late, stamp.symm⟩
  · have none_ : ∀ row' ∈ more, truncate every row'.t ≠ truncate every bar.t :=
      fun row' mem lies => touched ⟨row', mem, lies⟩
    have early : row ∈ rows :=
      (List.mem_append.mp last.mem).resolve_right fun late => none_ row late last.lies
    have start : truncate every bar.t ∈ bins every rows := by
      rw [bins, List.mem_eraseDups, List.mem_map]
      exact ⟨row, early, last.lies⟩
    obtain ⟨j, there⟩ := List.mem_iff_getElem?.mp start
    obtain ⟨rest, append⟩ := bins_append every rows more
    have inside := (List.getElem?_eq_some_iff.mp there).1
    have there' : (bins every (rows ++ more))[j]? = some (truncate every bar.t) := by
      rw [append, List.getElem?_append_left inside]
      exact there
    have once : (bins every (rows ++ more)).Nodup := ordered.bins.imp fun lt => Int.ne_of_lt lt
    obtain rfl : j = i :=
      (List.getElem?_inj (List.getElem?_eq_some_iff.mp there').1 once).mp (there'.trans at_.symm)
    refine .inl ?_
    rw [ordered.left.resampleLast, List.getElem?_map, there, Option.map_some, ← inBin_append none_, ← made]

/-! ## Where a stretch of a list ends -/

theorem takeWhile_ends {α : Type} (p : α → Bool) (values : List α) :
    (∀ m < (values.takeWhile p).length, ∃ value, values[m]? = some value ∧ p value = true) ∧
      ∀ value, values[(values.takeWhile p).length]? = some value → p value = false := by
  induction values with
  | nil => simp
  | cons value rest ih =>
    by_cases meets : p value = true
    · rw [List.takeWhile_cons_of_pos meets, List.length_cons]
      refine ⟨fun m short => ?_, fun other at_ => ih.2 other (by simpa using at_)⟩
      cases m with
      | zero => exact ⟨value, rfl, meets⟩
      | succ m => exact ih.1 m (Nat.lt_of_succ_lt_succ short)
    · rw [List.takeWhile_cons_of_neg meets]
      refine ⟨fun m short => absurd short (Nat.not_lt_zero m), fun other at_ => ?_⟩
      obtain rfl : value = other := by simpa using at_
      exact Bool.not_eq_true _ ▸ meets

theorem length_takeWhile_eq {α : Type} {p : α → Bool} {values : List α} {n : Nat}
    (meet : ∀ m < n, ∃ value, values[m]? = some value ∧ p value = true)
    (stops : ∀ value, values[n]? = some value → p value = false) : (values.takeWhile p).length = n := by
  obtain ⟨meet', stops'⟩ := takeWhile_ends p values
  obtain lt | eq | gt := Nat.lt_trichotomy (values.takeWhile p).length n
  · obtain ⟨value, at_, meets⟩ := meet _ lt
    rw [stops' value at_] at meets
    nomatch meets
  · exact eq
  · obtain ⟨value, at_, meets⟩ := meet' _ gt
    rw [stops value at_] at meets
    nomatch meets

/-! ## Sessions before a bar -/

def past (bars : List (Bar V)) (day : Int) : List (Bar V) := bars.filter fun bar => bar.day < day

variable {bars bars' : List (Bar V)}

theorem InDays.past_eq (inDays : InDays bars) (day : Int) :
    past bars day = bars.takeWhile fun bar => bar.day < day := by
  induction bars with
  | nil => rfl
  | cons bar rest ih =>
    obtain ⟨least, inDays⟩ := List.pairwise_cons.mp inDays
    unfold past at ih ⊢
    by_cases before : bar.day < day
    · rw [List.filter_cons_of_pos (by simpa using before), List.takeWhile_cons_of_pos (by simpa using before),
        ih inDays]
    · rw [List.filter_cons_of_neg (by simpa using before), List.takeWhile_cons_of_neg (by simpa using before)]
      refine List.filter_eq_nil_iff.mpr fun later mem is_ => ?_
      have le := least later mem
      have lt := of_decide_eq_true is_
      omega

theorem InDays.session (inDays : InDays bars) {i : Nat} {bar : Bar V} (here : bars[i]? = some bar) :
    past bars bar.day = bars.take (past bars bar.day).length ∧ (past bars bar.day).length ≤ i ∧
      (∀ j < (past bars bar.day).length, ∃ other, bars[j]? = some other ∧ other.day < bar.day) ∧
        ∀ j, (past bars bar.day).length ≤ j → j ≤ i → ∃ other, bars[j]? = some other ∧ other.day = bar.day := by
  obtain ⟨meet, stops⟩ := takeWhile_ends (fun other : Bar V => decide (other.day < bar.day)) bars
  rw [← inDays.past_eq] at meet stops
  have first : past bars bar.day <+: bars := by
    rw [inDays.past_eq]
    exact List.takeWhile_prefix _
  have upTo : (past bars bar.day).length ≤ i := by
    by_contra before
    obtain ⟨other, there, lt⟩ := meet i (Nat.not_le.mp before)
    cases here.symm.trans there
    exact Int.lt_irrefl _ (of_decide_eq_true lt)
  obtain ⟨inside, is_⟩ := List.getElem?_eq_some_iff.mp here
  refine ⟨List.prefix_iff_eq_take.mp first, upTo, fun j before => ?_, fun j from_ until_ => ?_⟩
  · obtain ⟨other, there, lt⟩ := meet j before
    exact ⟨other, there, of_decide_eq_true lt⟩
  · have inside' : j < bars.length := by omega
    have begins : (past bars bar.day).length < bars.length := by omega
    have ge := of_decide_eq_false (stops _ (List.getElem?_eq_getElem begins))
    have order := List.pairwise_iff_getElem.mp inDays
    refine ⟨bars[j], List.getElem?_eq_getElem inside', ?_⟩
    have le : bars[j].day ≤ bar.day := by
      by_cases same : j = i
      · subst same
        exact Int.le_of_eq (congrArg Bar.day is_)
      · have le := order j i inside' inside (by omega)
        rw [is_] at le
        exact le
    have ge' : bars[(past bars bar.day).length].day ≤ bars[j].day := by
      by_cases same : (past bars bar.day).length = j
      · exact Int.le_of_eq (by simp only [same])
      · exact order _ j begins inside' (by omega)
    omega

theorem starts_split (days : List Int) {first i : Nat} (upTo : first ≤ i) (inside : i < days.length)
    (begins : first = 0 ∨ days[first - 1]? ≠ days[first]?)
    (same : ∀ j, first < j → j ≤ i → days[j - 1]? = days[j]?) :
    (∃ rest, starts days = starts (days.take first) ++ first :: rest) ∧
      (starts days).filter (fun start => start ≤ i) = starts (days.take first) ++ [first] := by
  obtain ⟨more, length⟩ : ∃ more, days.length = first + (more + 1) :=
    ⟨days.length - first - 1, by omega⟩
  have before : (List.range first).filter (fun j => decide (j = 0 ∨ days[j]? ≠ days[j - 1]?)) =
      starts (days.take first) := by
    unfold starts
    rw [List.length_take, Nat.min_eq_left (by omega)]
    refine List.filter_congr fun j mem => ?_
    have lt := List.mem_range.mp mem
    rw [List.getElem?_take_of_lt lt, List.getElem?_take_of_lt (by omega)]
  have split : starts days = starts (days.take first) ++
      first :: (((List.range more).map fun j => first + (j + 1)).filter fun j =>
        decide (j = 0 ∨ days[j]? ≠ days[j - 1]?)) := by
    rw [← before, starts, length, List.range_add, List.filter_append, List.range_succ_eq_map, List.map_cons,
      List.map_map, List.filter_cons_of_pos]
    · rfl
    · exact decide_eq_true (begins.imp_right Ne.symm)
  refine ⟨⟨_, split⟩, ?_⟩
  rw [split, List.filter_append, List.filter_cons_of_pos (by simpa using upTo)]
  congr 1
  · refine List.filter_eq_self.mpr fun start mem => ?_
    have lt := List.mem_range.mp (List.mem_filter.mp mem).1
    rw [List.length_take] at lt
    exact decide_eq_true (by omega)
  · refine congrArg (first :: ·) (List.filter_eq_nil_iff.mpr fun start mem up => ?_)
    obtain ⟨mem, change⟩ := List.mem_filter.mp mem
    obtain ⟨j, -, rfl⟩ := List.mem_map.mp mem
    obtain zero | ne := of_decide_eq_true change
    · omega
    · exact ne (same _ (by omega) (of_decide_eq_true up)).symm

variable (num) in
def pastEdges (windowDays : Nat) (past : List (Bar V)) : List V :=
  let begins := starts (past.map Bar.day)
  if windowDays ≤ begins.length then
    poolEdges num ((past.map Bar.x).drop ((begins ++ [past.length]).getD (begins.length - windowDays) 0))
  else
    nanRow num

theorem InDays.sessionEdges (inDays : InDays bars) {i : Nat} {bar : Bar V} (here : bars[i]? = some bar)
    (windowDays : Nat) :
    sessionEdges num windowDays bars i = pastEdges num windowDays (past bars bar.day) := by
  obtain ⟨take, upTo, before, session⟩ := inDays.session here
  have inside := (List.getElem?_eq_some_iff.mp here).1
  have day (j : Nat) (from_ : (past bars bar.day).length ≤ j) (until_ : j ≤ i) :
      (bars.map Bar.day)[j]? = some bar.day := by
    obtain ⟨other, there, same⟩ := session j from_ until_
    rw [List.getElem?_map, there, Option.map_some, same]
  obtain ⟨⟨rest, split⟩, ends⟩ := starts_split (bars.map Bar.day) upTo (by simpa using inside)
    (by
      by_cases zero : (past bars bar.day).length = 0
      · exact .inl zero
      · refine .inr ?_
        obtain ⟨other, there, lt⟩ := before _ (Nat.sub_one_lt zero)
        rw [day _ (Nat.le_refl _) upTo, List.getElem?_map, there, Option.map_some]
        intro same
        have eq := Option.some.inj same
        omega)
    (fun j from_ until_ =>
      (day (j - 1) (by omega) (by omega)).trans (day j (by omega) until_).symm)
  have days : (bars.map Bar.day).take (past bars bar.day).length = (past bars bar.day).map Bar.day := by
    rw [← List.map_take, ← take]
  rw [days] at split ends
  generalize past bars bar.day = earlier at *
  have begins : (starts (bars.map Bar.day)).getD (starts (earlier.map Bar.day)).length 0 = earlier.length := by
    rw [split, List.getD_append_right _ _ _ _ (Nat.le_refl _), Nat.sub_self]
    rfl
  have window : (starts (bars.map Bar.day)).getD ((starts (earlier.map Bar.day)).length - windowDays) 0 =
      (starts (earlier.map Bar.day) ++ [earlier.length]).getD
        ((starts (earlier.map Bar.day)).length - windowDays) 0 := by
    rw [split, ← List.singleton_append, ← List.append_assoc, List.getD_append]
    rw [List.length_append, List.length_singleton]
    omega
  unfold Console.sessionEdges pastEdges
  simp only [ends, List.length_append, List.length_singleton, Nat.add_sub_cancel, begins, window]
  rw [← List.drop_take, ← List.map_take, ← take]

theorem InDays.past_take (inDays : InDays bars) {i : Nat} {bar : Bar V} (here : bars[i]? = some bar) :
    past (bars.take i) bar.day = past bars bar.day := by
  obtain ⟨inside, is_⟩ := List.getElem?_eq_some_iff.mp here
  have later : past (bars.drop i) bar.day = [] := by
    refine List.filter_eq_nil_iff.mpr fun other mem before => ?_
    rw [List.drop_eq_getElem_cons inside, is_] at mem
    have sorted : (bars.drop i).Pairwise fun bar bar' => bar.day ≤ bar'.day := inDays.drop
    rw [List.drop_eq_getElem_cons inside, is_] at sorted
    have lt := of_decide_eq_true before
    obtain same | mem := List.mem_cons.mp mem
    · rw [same] at lt
      exact Int.lt_irrefl _ lt
    · have le := (List.pairwise_cons.mp sorted).1 other mem
      omega
  calc
    past (bars.take i) bar.day = past (bars.take i) bar.day ++ past (bars.drop i) bar.day := by
      rw [later, List.append_nil]
    _ = past bars bar.day := by
      unfold past
      rw [← List.filter_append, List.take_append_drop]

def window (length : Nat) (bars : List (Bar V)) (i : Nat) : List (Bar V) := (bars.take i).drop (i - length)

variable (num) in
def windowEdges (length : Nat) (window : List (Bar V)) : List V :=
  let values := window.map Bar.x
  if values.length = length ∧ values.all (fun value => !num.isNan value) then num.rollingQuantiles values
  else nanRow num

theorem barEdges_eq {length i : Nat} (inside : i ≤ bars.length) :
    barEdges num length (bars.map Bar.x) i = windowEdges num length (window length bars i) := by
  unfold barEdges windowEdges window
  by_cases full : length ≤ i
  · have values : ((bars.map Bar.x).drop (i - length)).take length =
        ((bars.take i).drop (i - length)).map Bar.x := by
      rw [List.map_drop, List.map_take, List.drop_take, Nat.sub_sub_self full]
    have long : (((bars.take i).drop (i - length)).map Bar.x).length = length := by
      rw [List.length_map, List.length_drop, List.length_take]
      omega
    simp only [values, long, full, true_and]
  · have short : (((bars.take i).drop (i - length)).map Bar.x).length ≠ length := by
      rw [List.length_map, List.length_drop, List.length_take]
      omega
    simp only [full, short, false_and, if_false]

variable {s : Settings}

variable {bar : Bar V} {i : Nat}

theorem InDays.edges (inDays : InDays bars) (here : bars[i]? = some bar) :
    (rollingEdges num s bars)[i]? = some (
      if s.windowBars.getD 0 = 0 then pastEdges num s.windowDays (past bars bar.day)
      else windowEdges num (s.windowBars.getD 0) (window (s.windowBars.getD 0) bars i)) := by
  have inside := (List.getElem?_eq_some_iff.mp here).1
  simp only [rollingEdges, List.getElem?_map, List.getElem?_range inside, Option.map_some,
    inDays.sessionEdges here, barEdges_eq (Nat.le_of_lt inside)]

theorem getElem?_of_take {i j : Nat} (same : bars'.take (j + 1) = bars.take (j + 1)) (upTo : i ≤ j) :
    bars'[i]? = bars[i]? := by
  have lookups := congrArg (fun list : List (Bar V) => list[i]?) same
  simpa [List.getElem?_take_of_lt (Nat.lt_succ_of_le upTo)] using lookups

theorem edges_of_take (inDays : InDays bars) (inDays' : InDays bars')
    (here : bars[i]? = some bar) (same : bars'.take (i + 1) = bars.take (i + 1)) :
    (rollingEdges num s bars')[i]? = (rollingEdges num s bars)[i]? := by
  have here' : bars'[i]? = some bar := (getElem?_of_take same (Nat.le_refl _)).trans here
  have before : bars'.take i = bars.take i := by
    have both := congrArg (List.take i) same
    rwa [List.take_take, List.take_take, Nat.min_eq_left (Nat.le_succ i)] at both
  rw [inDays'.edges here', inDays.edges here, ← inDays'.past_take here', ← inDays.past_take here, window,
    window, before]

theorem deciles_of_edges {edges edges' : List (List V)} (same : bars'[i]? = bars[i]?)
    (same' : edges'[i]? = edges[i]?) :
    (assignDeciles num (bars'.map Bar.x) edges')[i]? = (assignDeciles num (bars.map Bar.x) edges)[i]? := by
  unfold assignDeciles
  rw [List.getElem?_zipWith, List.getElem?_zipWith, List.getElem?_map, List.getElem?_map, same, same']

/-! ## Closes -/

theorem closeIndex_spec (here : bars[i]? = some bar) :
    i ≤ closeIndex bars i bar.day ∧
      (∀ m, i ≤ m → m ≤ closeIndex bars i bar.day → ∃ other, bars[m]? = some other ∧ other.day = bar.day) ∧
        ∀ other, bars[closeIndex bars i bar.day + 1]? = some other → other.day ≠ bar.day := by
  obtain ⟨meet, stops⟩ := takeWhile_ends (fun other : Bar V => decide (other.day = bar.day))
    (bars.drop (i + 1))
  unfold closeIndex
  refine ⟨Nat.le_add_right _ _, fun m from_ until_ => ?_, fun other there => ?_⟩
  · by_cases self : m = i
    · exact ⟨bar, self ▸ here, rfl⟩
    · obtain ⟨other, there, same⟩ := meet (m - (i + 1)) (by omega)
      rw [List.getElem?_drop, show i + 1 + (m - (i + 1)) = m by omega] at there
      exact ⟨other, there, of_decide_eq_true same⟩
  · refine of_decide_eq_false (stops other ?_)
    rw [List.getElem?_drop, ← there]
    congr 1
    omega

theorem closeIndex_eq {i j : Nat} {day : Int} (upTo : i ≤ j)
    (session : ∀ m, i < m → m ≤ j → ∃ other, bars[m]? = some other ∧ other.day = day)
    (stops : ∀ other, bars[j + 1]? = some other → other.day ≠ day) : closeIndex bars i day = j := by
  unfold closeIndex
  rw [length_takeWhile_eq (n := j - i)]
  · omega
  · intro m short
    obtain ⟨other, there, same⟩ := session (i + 1 + m) (by omega) (by omega)
    exact ⟨other, (List.getElem?_drop ..).trans there, decide_eq_true same⟩
  · intro other there
    rw [List.getElem?_drop, show i + 1 + (j - i) = j + 1 by omega] at there
    exact decide_eq_false (stops other there)

/-- The cut leaves a session without its close. -/
def Settings.Shuts (s : Settings) (day : Int) : Prop :=
  ∃ cut, s.cut = some cut ∧ cut ≠ dayOf cut ∧ dayOf cut = day

theorem Ordered.last_bar (ordered : Ordered rows) {last : Bar V}
    (is_ : (Console.resampleLast num every rows).getLast? = some last) :
    (rows.map Tick.t).max? = some last.t := by
  obtain ⟨some_, is_⟩ := List.getLast?_eq_some_iff.mp is_
  have stamps : (Console.resampleLast num every rows).Pairwise fun bar bar' => bar.t < bar'.t := ordered.stamps
  have lastMem : last ∈ Console.resampleLast num every rows := by
    rw [is_]
    exact List.mem_append_right _ (List.mem_singleton_self _)
  obtain ⟨i, here⟩ := List.mem_iff_getElem?.mp lastMem
  obtain ⟨-, -, row, stamped, stamp⟩ := bar_made ordered here
  refine List.max?_eq_some_iff.mpr ⟨List.mem_map.mpr ⟨row, stamped.mem, stamp.symm⟩, fun t mem => ?_⟩
  obtain ⟨row', there, rfl⟩ := List.mem_map.mp mem
  -- the bar of the row is not after the last one
  have start : truncate every row'.t ∈ Console.bins every rows := by
    rw [Console.bins, List.mem_eraseDups, List.mem_map]
    exact ⟨row', there, rfl⟩
  obtain ⟨row'', stamped', stamp'⟩ := barOf_lastIn num ordered start
  have barMem : barOf num (inBin every rows (truncate every row'.t)) ∈
      Console.resampleLast num every rows := by
    rw [ordered.resampleLast]
    exact List.mem_map_of_mem start
  have le := stamped'.latest row' there rfl
  rw [is_] at barMem stamps
  obtain early | same := List.mem_append.mp barMem
  · have before := (List.pairwise_append.mp stamps).2.2 _ early last (List.mem_singleton_self _)
    omega
  · rw [List.mem_singleton.mp same] at stamp'
    omega

theorem partial_iff (num : Numbers V) (ordered : Ordered rows) (before : ∀ row ∈ rows, ∀ cut, s.cut = some cut → row.t < cut)
    (mem : bar ∈ resampleLast num s.every rows) :
    (s.partialSession rows = true ∧
      (resampleLast num s.every rows).getLast?.any (fun last => last.day = bar.day) = true) ↔
        s.Shuts bar.day := by
  have some_ : resampleLast num s.every rows ≠ [] := List.ne_nil_of_mem mem
  obtain ⟨last, is_⟩ : ∃ last, (resampleLast num s.every rows).getLast? = some last :=
    ⟨_, List.getLast?_eq_some_getLast some_⟩
  have latest := ordered.last_bar is_
  have lastDay := bar_day ordered (List.mem_of_getLast? is_)
  have barDay := bar_day ordered mem
  obtain ⟨there, least⟩ := List.max?_eq_some_iff.mp latest
  obtain ⟨row, rowMem, stamp⟩ := List.mem_map.mp there
  unfold Settings.partialSession Settings.Shuts
  rw [latest, is_]
  cases cut : s.cut with
  | none => simp
  | some cut_ =>
    have early := dayOf_mono (Int.le_of_lt (before row rowMem cut_ cut))
    rw [stamp] at early
    have upTo : bar.day ≤ dayOf last.t := by
      obtain ⟨i, here⟩ := List.mem_iff_getElem?.mp mem
      obtain ⟨-, -, row', stamped, stamp'⟩ := bar_made ordered here
      rw [barDay, stamp']
      exact dayOf_mono (least _ (List.mem_map_of_mem stamped.mem))
    simp only [Option.any_some, Bool.and_eq_true, decide_eq_true_eq, lastDay, Option.some.injEq,
      exists_eq_left', ne_eq]
    constructor
    · rintro ⟨⟨inside, same⟩, same'⟩
      exact ⟨inside, same.symm.trans same'⟩
    · rintro ⟨inside, same⟩
      have eq : dayOf last.t = bar.day := by omega
      exact ⟨⟨inside, eq.trans same.symm⟩, eq⟩

/-! ## What a study keeps -/

theorem mem_kept {samples : List (Sample V)} {row : Tick V} (mem : row ∈ s.kept num samples) :
    (∃ sample ∈ samples, sample.t = some row.t ∧ sample.price = row.p) ∧
      ∀ cut, s.cut = some cut → row.t < cut := by
  obtain ⟨sample, there, keeps⟩ := List.mem_filterMap.mp mem
  obtain ⟨t, at_, keeps⟩ := Option.bind_eq_some_iff.mp keeps
  obtain ⟨before, keeps⟩ := Option.ite_none_right_eq_some.mp keeps
  cases keeps
  refine ⟨⟨sample, there, at_, rfl⟩, fun cut is_ => ?_⟩
  rw [is_] at before
  exact of_decide_eq_true before

/-- The rows are in the order of their times. -/
def TimeSorted (samples : List (Sample V)) : Prop := (samples.filterMap Sample.t).Pairwise (· ≤ ·)

theorem TimeSorted.kept {samples : List (Sample V)} (sorted : TimeSorted samples) :
    Ordered (s.kept num samples) := by
  have times : ((s.kept num samples).map Tick.t).Sublist (samples.filterMap Sample.t) := by
    induction samples with
    | nil => exact .slnil
    | cons sample rest ih =>
      have rest_ : TimeSorted rest := by
        unfold TimeSorted at sorted
        rw [List.filterMap_cons] at sorted
        split at sorted
        · exact sorted
        · exact (List.pairwise_cons.mp sorted).2
      unfold Settings.kept at ih ⊢
      rw [List.filterMap_cons, List.filterMap_cons]
      cases at_ : sample.t with
      | none => exact ih rest_
      | some t =>
        rw [Option.bind_some]
        split_ifs
        · exact (ih rest_).cons_cons t
        · exact (ih rest_).cons t
  exact List.pairwise_map.mp (sorted.sublist times)

theorem kept_append (samples more : List (Sample V)) :
    s.kept num (samples ++ more) = s.kept num samples ++ s.kept num more := List.filterMap_append

theorem ordered_byTime (rows : List (Tick V)) : Ordered (byTime rows) := by
  have trans (a b c : Tick V) (ab : decide (a.t ≤ b.t) = true) (bc : decide (b.t ≤ c.t) = true) :
      decide (a.t ≤ c.t) = true :=
    decide_eq_true (Int.le_trans (of_decide_eq_true ab) (of_decide_eq_true bc))
  have total (a b : Tick V) : (decide (a.t ≤ b.t) || decide (b.t ≤ a.t)) = true := by
    simpa using Int.le_total a.t b.t
  have sorted := List.pairwise_mergeSort trans total rows
  exact sorted.imp fun le => of_decide_eq_true le

/-! ## The study is causal -/

/-- The session of a bar has ended: no row lies in its day, or in the stretch of one of its bars. -/
def Bar.SessionComplete (every : Nat) (bars : List (Bar V)) (more : List (Tick V)) (bar : Bar V) : Prop :=
  (∀ row ∈ more, dayOf row.t ≠ bar.day) ∧ ∀ other ∈ bars, other.day = bar.day → other.Complete every more

/-- What the study of some rows says about a bar stays when rows are appended. -/
structure Unmoved (num : Numbers V) (s : Settings) (samples more : List (Sample V)) : Prop where
  bars : ∀ (i : Nat) (bar : Bar V), (study num s samples).bars[i]? = some bar → bar.Complete s.every (s.kept num more) →
    (study num s (samples ++ more)).bars[i]? = some bar ∧
      (study num s (samples ++ more)).edges[i]? = (study num s samples).edges[i]? ∧
        (study num s (samples ++ more)).deciles[i]? = (study num s samples).deciles[i]?
  horizons : ∀ (i h : Nat) (end_ : Bar V), 0 < h → (study num s samples).bars[i + h]? = some end_ →
    end_.Complete s.every (s.kept num more) →
      ((study num s (samples ++ more)).returns h)[i]? = ((study num s samples).returns h)[i]?
  missing : ∀ (i : Nat) (bar : Bar V) (h : Nat), 0 < h → (study num s samples).bars[i]? = some bar →
    (study num s samples).bars[i + h]? = none → ((study num s samples).returns h)[i]? = some num.nan
  closes : ∀ (i : Nat) (bar : Bar V), (study num s samples).bars[i]? = some bar →
    bar.SessionComplete s.every (study num s samples).bars (s.kept num more) →
      ((study num s (samples ++ more)).returns 0)[i]? = ((study num s samples).returns 0)[i]?

/-- The edges of two bars are the same if the bars before them are: those of earlier sessions, or those of
the window. -/
def EdgesOfPast (num : Numbers V) (s : Settings) (samples samples' : List (Sample V)) : Prop :=
  ∀ (i i' : Nat) (bar bar' : Bar V), (study num s samples).bars[i]? = some bar → (study num s samples').bars[i']? = some bar' →
    (s.windowBars.getD 0 = 0 →
      past (study num s samples).bars bar.day = past (study num s samples').bars bar'.day) →
    (s.windowBars.getD 0 ≠ 0 →
      window (s.windowBars.getD 0) (study num s samples).bars i =
        window (s.windowBars.getD 0) (study num s samples').bars i') →
      (study num s samples).edges[i]? = (study num s samples').edges[i']?

/-- What the returns of a study are made of. -/
structure Within (num : Numbers V) (s : Settings) (samples : List (Sample V)) : Prop where
  returns : ∀ (h i : Nat) (r : V), ((study num s samples).returns h)[i]? = some r → r ≠ num.nan →
    ∃ j bar end_, i < j ∧ (0 < h → j = i + h) ∧ (study num s samples).bars[i]? = some bar ∧
      (study num s samples).bars[j]? = some end_ ∧ end_.day = bar.day ∧ r = num.change bar.p end_.p
  /-- A bar is stamped with a row before the cut, and its price is that of a row before the cut that lies in
  the bar, and in its session if stretches do not go beyond a day. -/
  bars : ∀ bar ∈ (study num s samples).bars,
    (∃ sample ∈ samples, sample.t = some bar.t ∧ ∀ cut, s.cut = some cut → bar.t < cut) ∧
      (bar.p = num.nan ∨ ∃ sample ∈ samples, ∃ t, sample.t = some t ∧ sample.price = bar.p ∧
        truncate s.every t = truncate s.every bar.t ∧ (s.every ∣ dayLength → dayOf t = bar.day) ∧
          ∀ cut, s.cut = some cut → t < cut)

theorem dayOf_eq {every : Nat} (fits : every ∣ dayLength) {t t' : Int}
    (same : truncate every t = truncate every t') : dayOf t = dayOf t' := by
  obtain ⟨count, length⟩ := fits
  have long : every ≠ 0 := by
    rintro rfl
    rw [Nat.zero_mul] at length
    nomatch length
  have quotient : t / every = t' / every := by
    have parts := Int.mul_ediv_add_emod t every
    have parts' := Int.mul_ediv_add_emod t' every
    unfold truncate at same
    have eq : (every : Int) * (t / every) = every * (t' / every) := by omega
    exact Int.eq_of_mul_eq_mul_left (by omega) eq
  have day (u : Int) : dayOf u = dayLength * (u / every / count) := by
    have parts := Int.mul_ediv_add_emod u dayLength
    have split : u / (dayLength : Int) = u / every / count := by
      rw [length, Int.natCast_mul, Int.ediv_ediv_of_nonneg (by omega)]
    unfold dayOf truncate
    rw [← split]
    omega
  rw [day, day, quotient]

theorem changeTo_cases (bar end_ : Bar V) :
    changeTo num bar end_ = num.nan ∨ changeTo num bar end_ = num.change bar.p end_.p := by
  simp only [changeTo]
  split_ifs
  · exact .inl rfl
  · exact .inr rfl

theorem returns_getElem? {h i : Nat} {partialLast : Bool} :
    (forwardReturnsBps num bars h partialLast)[i]? = bars[i]?.map fun bar =>
      if h = 0 then closeReturn num bars partialLast i bar else barsReturn num bars h i bar :=
  List.getElem?_mapIdx

theorem within (s : Settings) (samples : List (Sample V)) : Within num s samples where
  returns := by
    intro h i r here number
    change (forwardReturnsBps num (study num s samples).bars h _)[i]? = some r at here
    rw [returns_getElem?] at here
    obtain ⟨bar, there, rfl⟩ := Option.map_eq_some_iff.mp here
    by_cases close : h = 0
    · rw [if_pos close] at number ⊢
      simp only [closeReturn] at number ⊢
      split_ifs at number ⊢ with none_
      · exact absurd rfl number
      · obtain ⟨upTo, session, -⟩ := closeIndex_spec there
        obtain ⟨end_, at_, same⟩ := session _ upTo (Nat.le_refl _)
        have later : closeIndex (study num s samples).bars i bar.day ≠ i := fun self => none_ (.inl self)
        rw [at_] at number ⊢
        refine ⟨_, bar, end_, by omega, fun positive => by omega, there, at_, same, ?_⟩
        exact (changeTo_cases bar end_).resolve_left number
    · rw [if_neg close] at number ⊢
      unfold barsReturn at number ⊢
      cases at_ : (study num s samples).bars[i + h]? with
      | none =>
        rw [at_] at number
        exact absurd rfl number
      | some end_ =>
        rw [at_] at number
        simp only at number ⊢
        split_ifs at number ⊢ with same
        · exact ⟨i + h, bar, end_, by omega, fun _ => rfl, there, at_, same,
            (changeTo_cases bar end_).resolve_left number⟩
        · exact absurd rfl number
  bars := by
    intro bar mem
    have ordered := ordered_byTime (s.kept num samples)
    have keeps {row : Tick V} (there : row ∈ byTime (s.kept num samples)) :
        row ∈ s.kept num samples := List.mem_mergeSort.mp there
    change bar ∈ resampleLast num s.every (byTime (s.kept num samples)) at mem
    obtain ⟨i, here⟩ := List.mem_iff_getElem?.mp mem
    obtain ⟨-, made, row, stamped, stamp⟩ := bar_made ordered here
    constructor
    · obtain ⟨⟨sample, there, at_, -⟩, before⟩ := mem_kept (keeps stamped.mem)
      rw [stamp]
      exact ⟨sample, there, at_, before⟩
    · have price : bar.p = known num ((inBin s.every (byTime (s.kept num samples))
          (truncate s.every bar.t)).map Tick.p) := congrArg Bar.p made
      refine (known_mem _).imp price.trans fun among => ?_
      rw [← price] at among
      obtain ⟨row', inside, same⟩ := List.mem_map.mp among
      obtain ⟨there', lies⟩ := List.mem_filter.mp inside
      have lies := of_decide_eq_true lies
      obtain ⟨⟨sample, there, at_, price⟩, before⟩ := mem_kept (keeps there')
      refine ⟨sample, there, row'.t, at_, price.trans same, lies, fun fits => ?_, before⟩
      rw [bar_day ordered mem]
      exact dayOf_eq fits lies

theorem edges_of_past (s : Settings) (samples samples' : List (Sample V)) :
    EdgesOfPast num s samples samples' := by
  intro i i' bar bar' here here' sessions windows
  change (rollingEdges num s _)[i]? = (rollingEdges num s _)[i']?
  rw [(ordered_byTime _).inDays.edges here, (ordered_byTime _).inDays.edges here']
  split_ifs with days
  · have same : past (resampleLast num s.every _) _ = past (resampleLast num s.every _) _ := sessions days
    rw [same]
  · have same : window _ (resampleLast num s.every _) _ = window _ (resampleLast num s.every _) _ :=
      windows days
    rw [same]

theorem study_append (num : Numbers V) (s : Settings) {samples more : List (Sample V)} (sorted : TimeSorted (samples ++ more)) :
    Ordered (s.kept num samples ++ s.kept num more) ∧
      study num s samples = studyTimeframe num s (s.kept num samples) (s.partialSession (s.kept num samples)) ∧
        study num s (samples ++ more) =
          studyTimeframe num s (s.kept num samples ++ s.kept num more)
            (s.partialSession (s.kept num samples ++ s.kept num more)) := by
  have ordered : Ordered (s.kept num samples ++ s.kept num more) := by
    rw [← kept_append]
    exact sorted.kept
  refine ⟨ordered, ?_, ?_⟩
  · simp only [study, ordered.left.byTime]
  · simp only [study, kept_append, ordered.byTime]

theorem closeReturn_append {more : List (Tick V)} (ordered : Ordered (rows ++ more))
    (before : ∀ row ∈ rows ++ more, ∀ cut, s.cut = some cut → row.t < cut)
    (here : (resampleLast num s.every rows)[i]? = some bar)
    (ended : bar.SessionComplete s.every (resampleLast num s.every rows) more) :
    (resampleLast num s.every (rows ++ more))[i]? = some bar ∧
      closeReturn num (resampleLast num s.every (rows ++ more)) (s.partialSession (rows ++ more)) i bar =
        closeReturn num (resampleLast num s.every rows) (s.partialSession rows) i bar := by
  obtain ⟨upTo, session, stops⟩ := closeIndex_spec here
  obtain ⟨end_, there, sameDay⟩ := session _ upTo (Nat.le_refl _)
  have complete := ended.2 end_ (List.mem_of_getElem? there) sameDay
  have same := take_complete ordered there complete
  have here' := (getElem?_of_take same upTo).trans here
  have close : closeIndex (resampleLast num s.every (rows ++ more)) i bar.day =
      closeIndex (resampleLast num s.every rows) i bar.day := by
    refine closeIndex_eq upTo (fun m from_ until_ => ?_) fun other after => ?_
    · obtain ⟨other, at_, day⟩ := session m (by omega) until_
      exact ⟨other, (getElem?_of_take same until_).trans at_, day⟩
    · obtain old | ⟨row, mem, stamp⟩ := bar_before ordered after
      · exact stops other old
      · rw [bar_day ordered (List.mem_of_getElem? after), ← stamp]
        exact ended.1 row mem
  have shuts := partial_iff num ordered before (List.mem_of_getElem? here')
  have shuts' := partial_iff num ordered.left
    (fun row mem => before row (List.mem_append_left _ mem)) (List.mem_of_getElem? here)
  refine ⟨here', ?_⟩
  simp only [closeReturn, close, getElem?_of_take same (Nat.le_refl _)]
  exact if_congr (or_congr_right (shuts.trans shuts'.symm)) rfl rfl

theorem unmoved (s : Settings) {samples more : List (Sample V)} (sorted : TimeSorted (samples ++ more)) :
    Unmoved num s samples more := by
  obtain ⟨ordered, old, new⟩ := study_append num s sorted
  constructor <;> rw [old] <;> try rw [new]
  · intro i bar here complete
    have same := take_complete ordered here complete
    have here' := (getElem?_of_take same (Nat.le_refl i)).trans here
    have edges : (rollingEdges num s _)[i]? = (rollingEdges num s _)[i]? :=
      edges_of_take ordered.left.inDays ordered.inDays here same
    exact ⟨here', edges, deciles_of_edges (here'.trans here.symm) edges⟩
  · intro i h end_ positive there complete
    have same := take_complete ordered there complete
    change (forwardReturnsBps num _ h _)[i]? = (forwardReturnsBps num _ h _)[i]?
    rw [returns_getElem?, returns_getElem?, getElem?_of_take same (Nat.le_add_right i h)]
    refine Option.map_congr fun bar here => ?_
    rw [if_neg (by omega), if_neg (by omega), barsReturn, barsReturn, getElem?_of_take same (Nat.le_refl _)]
  · intro i bar h positive here none_
    change (forwardReturnsBps num _ h _)[i]? = _
    rw [returns_getElem?]
    simp only [studyTimeframe] at here none_
    rw [here, Option.map_some, if_neg (by omega), barsReturn, none_]
  · intro i bar here ended
    change (forwardReturnsBps num _ 0 _)[i]? = (forwardReturnsBps num _ 0 _)[i]?
    simp only [studyTimeframe] at here ended
    have before : ∀ row ∈ s.kept num samples ++ s.kept num more, ∀ cut, s.cut = some cut → row.t < cut := by
      rw [← kept_append]
      exact fun row mem => (mem_kept mem).2
    obtain ⟨here', same⟩ := closeReturn_append ordered before here ended
    rw [returns_getElem?, returns_getElem?, here', here, Option.map_some, Option.map_some, if_pos rfl,
      if_pos rfl, same]

def linearQuantile (values : List ℚ) (q : ℚ) : ℚ :=
  let sorted := values.mergeSort fun value value' => value ≤ value'
  let position := q * (values.length - 1 : Nat)
  let below := position.floor.toNat
  let lower := sorted.getD below 0
  lower + (position - below) * (sorted.getD (below + 1) lower - lower)

def linearDeciles (values : List (Option ℚ)) : List (Option ℚ) :=
  (List.range 9).map fun k => some (linearQuantile (values.filterMap id) ((k + 1) / 10))

def rationals : Numbers (Option ℚ) where
  nan := none
  isNan := Option.isNone
  isFinite := Option.isSome
  above value value' := value.any fun x => value'.any fun y => y < x
  positive value := value.any fun x => 0 < x
  nonPositive value := value.any fun x => x ≤ 0
  change p p' := p.bind fun x => if x = 0 then none else p'.map fun y => (y / x - 1) * 10000
  quantiles := linearDeciles
  rollingQuantiles := linearDeciles

/-- Bars of a minute, a window of two bars, and no cut. -/
def minutely : Settings :=
  { cut := none, conditioned := false, every := 60000000, windowDays := 20, windowBars := some 2 }

def rowAt (seconds : Int) (x price : ℚ) : Sample (Option ℚ) :=
  { t := some (seconds * 1000000), x := some x, price := some price, condition := none }

def fourRows : List (Sample (Option ℚ)) :=
  [rowAt 10 1 100, rowAt 70 3 101, rowAt 80 2 102, rowAt 130 9 51]

/-- A row of the third minute and one of the fourth. -/
def twoMore : List (Sample (Option ℚ)) := [rowAt 140 0 204, rowAt 200 5 51]

end FreeSwarm.Console
