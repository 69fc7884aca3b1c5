import FreeSwarm.Foundation.Dict
import FreeSwarm.Foundation.FairRun

/-!
# Candidates that are marked again

A rule that changes starts a run that marks every scored candidate again, and supersedes one that is under
way. A run looks whether it is superseded before each candidate, then waits for the new marks and writes
them. What it writes is under the latest rule in the end if no run writes over what a newer one wrote, and
if nothing is kept of the marks that were there.
-/

namespace FreeSwarm.Objectives

open FreeSwarm.Foundation

/-- What a candidate is given when it is marked. -/
structure Verdict (Key Value : Type) where
  score : Value
  isScore : Value
  scoreNote : Value
  returns : Value
  metrics : Dict Key Value

/-- How candidates are marked again. -/
structure Marker (Rule Cid Key Value : Type) where
  mark : Rule → Cid → Verdict Key Value
  popped : List Key
  keys : List Key

/-- `_remark`: candidates are marked to market again. -/
def remark {Rule Cid Value : Type} (mark : Rule → Cid → Verdict (List Char) Value) :
    Marker Rule Cid (List Char) Value where
  mark := mark
  popped := ["rank".toList, "one_sided".toList]
  keys := ["in_sample".toList, "holdout".toList, "full".toList, "warning".toList, "rank".toList,
    "one_sided".toList, "swings".toList, "execution".toList, "costs".toList]

def taskMetricKeys : List (List Char) :=
  ["task".toList, "in_sample".toList, "holdout".toList, "rank".toList, "source".toList,
    "too_few_trades".toList]

/-- `_rescore_task`: candidates are valued again by the task server. -/
def rescoreTask {Rule Cid Value : Type} (mark : Rule → Cid → Verdict (List Char) Value) :
    Marker Rule Cid (List Char) Value where
  mark := mark
  popped := taskMetricKeys
  keys := taskMetricKeys

structure MarkedRow (Key Value : Type) where
  score : Value
  isScore : Value
  scoreNote : Value
  returns : Value
  metrics : Dict Key Value
  writer : Option Nat
  deriving DecidableEq

structure MarkRun (Rule Cid : Type) where
  remaining : List Cid
  working : Option (Cid × Rule)
  deriving DecidableEq

/-- The scored candidates of an objective, and what marks them again. -/
structure Remarks (Rule Cid Key Value : Type) where
  rule : Rule
  rows : Dict Cid (MarkedRow Key Value)
  spawned : Nat
  begun : Nat
  /-- `_REMARKS`: the run that began last. -/
  current : Option Nat
  runs : Dict Nat (MarkRun Rule Cid)
  failed : Bool
  overwritten : Bool
  deriving DecidableEq

/-- A step. -/
inductive MarkEvent (Rule Cid : Type) where
  | change (rule : Rule)
  | start (order : List Cid)
  | next (id : Nat)
  | mark (id : Nat)
  | fail (id : Nat)
  deriving DecidableEq

variable {Rule Cid Key Value : Type} [DecidableEq Cid] [DecidableEq Key]

namespace Marker
variable (m : Marker Rule Cid Key Value)

def write (id : Nat) (cid : Cid) (rule : Rule) (row : MarkedRow Key Value) : MarkedRow Key Value where
  score := (m.mark rule cid).score
  isScore := (m.mark rule cid).isScore
  scoreNote := (m.mark rule cid).scoreNote
  returns := (m.mark rule cid).returns
  metrics := (row.metrics.filter fun key _ => key ∉ m.popped).update (m.mark rule cid).metrics
  writer := some id

structure Marked (rule : Rule) (cid : Cid) (row : MarkedRow Key Value) : Prop where
  score : row.score = (m.mark rule cid).score
  isScore : row.isScore = (m.mark rule cid).isScore
  scoreNote : row.scoreNote = (m.mark rule cid).scoreNote
  returns : row.returns = (m.mark rule cid).returns
  metrics : ∀ key ∈ m.keys, row.metrics.get? key = (m.mark rule cid).metrics.get? key

/-- Nothing is kept of the marks that were there: what a marking may compute and does not was not there, or
is taken out. -/
def Clears (rule : Rule) (cid : Cid) (row : MarkedRow Key Value) : Prop :=
  ∀ key ∈ m.keys, key ∉ m.popped → (m.mark rule cid).metrics.get? key = none →
    row.metrics.get? key = none

omit [DecidableEq Cid] in
theorem write_marked {id : Nat} {cid : Cid} {rule : Rule} {row : MarkedRow Key Value}
    (clears : m.Clears rule cid row) : m.Marked rule cid (m.write id cid rule row) where
  score := rfl
  isScore := rfl
  scoreNote := rfl
  returns := rfl
  metrics key mem := by
    rw [write, Dict.get?_update, Dict.get?_filter_key]
    cases found : (m.mark rule cid).metrics.get? key with
    | some value => rfl
    | none =>
      rw [Option.none_or]
      by_cases out : key ∈ m.popped
      · rw [if_neg (not_not.mpr out)]
      · rw [if_pos out]
        exact clears key mem out found

end Marker

namespace Remarks

variable (m : Marker Rule Cid Key Value) (s : Remarks Rule Cid Key Value)

def step :
    MarkEvent Rule Cid → Option (Remarks Rule Cid Key Value)
  | .change rule => some { s with rule := rule, spawned := s.spawned + 1 }
  | .start order =>
    if 0 < s.spawned ∧ order.Perm (s.rows.entries.map Prod.fst) then
      some { s with
        spawned := s.spawned - 1
        begun := s.begun + 1
        current := some s.begun
        runs := s.runs.set s.begun ⟨order, none⟩ }
    else none
  | .next id =>
    match s.runs.get? id with
    | some ⟨cid :: rest, none⟩ =>
      if s.current = some id then some { s with runs := s.runs.set id ⟨rest, some (cid, s.rule)⟩ }
      else some { s with runs := s.runs.pop id }
    | some ⟨[], none⟩ => some { s with runs := s.runs.pop id }
    | _ => none
  | .mark id =>
    match s.runs.get? id with
    | some ⟨rest, some (cid, rule)⟩ =>
      some { s with
        rows := s.rows.map fun cid' row => if cid' = cid then m.write id cid rule row else row
        runs := s.runs.set id ⟨rest, none⟩
        overwritten := s.overwritten ||
          (s.rows.get? cid).any fun row => row.writer.any fun writer => id < writer }
    | _ => none
  | .fail id =>
    match s.runs.get? id with
    | some ⟨rest, some _⟩ => some { s with runs := s.runs.set id ⟨rest, none⟩, failed := true }
    | _ => none

/-- No run writes over what a newer one wrote, and nothing is kept of the marks that were there. -/
def Timely (s : Remarks Rule Cid Key Value) : MarkEvent Rule Cid → Prop
  | .mark id =>
    ∀ rest cid rule row, s.runs.get? id = some ⟨rest, some (cid, rule)⟩ → s.rows.get? cid = some row →
      (∀ writer, row.writer = some writer → writer ≤ id) ∧ m.Clears rule cid row
  | _ => True

/-- No run wrote over what a newer one wrote, and when all have ended and none failed the candidates are
marked under the latest rule. -/
structure Sound : Prop where
  superseded : s.overwritten = false
  settled : s.spawned = 0 → s.runs.entries = [] → s.failed = false →
    ∀ cid row, s.rows.get? cid = some row → m.Marked s.rule cid row

/-! ## The run that began last -/

def Awaits (rule : Rule) (cid : Cid) (run : MarkRun Rule Cid) : Prop :=
  cid ∈ run.remaining ∨ run.working = some (cid, rule)

/-- The run that began last has marked a candidate under the latest rule, or is still to. -/
structure Kept : Prop where
  superseded : s.overwritten = false
  begun : ∀ id run, s.runs.get? id = some run → id < s.begun
  current : ∀ id, id < s.begun → ∃ last, s.current = some last ∧ id ≤ last
  last : ∀ last, s.current = some last → last < s.begun
  writer : ∀ cid row writer, s.rows.get? cid = some row → row.writer = some writer → writer < s.begun
  reads : s.spawned = 0 → ∀ id rest cid rule, s.current = some id →
    s.runs.get? id = some ⟨rest, some (cid, rule)⟩ → rule = s.rule
  marks : s.spawned = 0 → s.failed = false → ∀ cid row, s.rows.get? cid = some row →
    (row.writer = s.current ∧ m.Marked s.rule cid row) ∨
      ∃ id run, s.current = some id ∧ s.runs.get? id = some run ∧ Awaits s.rule cid run

variable {m : Marker Rule Cid Key Value} {s s' : Remarks Rule Cid Key Value}

theorem Kept.sound (kept : Kept m s) : Sound m s where
  superseded := kept.superseded
  settled rests ended clear cid row here := by
    obtain ⟨-, marked⟩ | ⟨id, run, -, there, -⟩ := kept.marks rests clear cid row here
    · exact marked
    · have mem := Dict.mem_entries_iff.mpr there
      rw [ended] at mem
      nomatch mem

theorem Kept.change (kept : Kept m s) (rule : Rule) :
    Kept m { s with rule := rule, spawned := s.spawned + 1 } where
  superseded := kept.superseded
  begun := kept.begun
  current := kept.current
  last := kept.last
  writer := kept.writer
  reads rests := nomatch rests
  marks rests := nomatch rests

theorem Kept.start (kept : Kept m s) {order : List Cid} (all : order.Perm (s.rows.entries.map Prod.fst)) :
    Kept m { s with
      spawned := s.spawned - 1
      begun := s.begun + 1
      current := some s.begun
      runs := s.runs.set s.begun ⟨order, none⟩ } where
  superseded := kept.superseded
  begun id run there := by
    rw [Dict.get?_set] at there
    split_ifs at there with same
    · rw [same]
      exact Nat.lt_succ_self _
    · exact (kept.begun id run there).trans (Nat.lt_succ_self _)
  current id before := ⟨s.begun, rfl, Nat.lt_succ_iff.mp before⟩
  last last is_ := by
    cases is_
    exact Nat.lt_succ_self _
  writer cid row writer here is_ := (kept.writer cid row writer here is_).trans (Nat.lt_succ_self _)
  reads _ id rest cid rule is_ there := by
    cases is_
    rw [Dict.get?_set_self] at there
    nomatch there
  marks _ _ cid row here := by
    refine .inr ⟨s.begun, ⟨order, none⟩, rfl, Dict.get?_set_self, .inl ?_⟩
    exact all.mem_iff.mpr (List.mem_map_of_mem (Dict.mem_entries_iff.mpr here))

variable {id : Nat} {rest : List Cid}

theorem Kept.superseded_ends (kept : Kept m s) (other : s.current ≠ some id) :
    Kept m { s with runs := s.runs.pop id } where
  superseded := kept.superseded
  begun id' run there := kept.begun id' run (Dict.get?_pop_eq_some.mp there).1
  current := kept.current
  last := kept.last
  writer := kept.writer
  reads rests id' rest cid rule is_ there :=
    kept.reads rests id' rest cid rule is_ (Dict.get?_pop_eq_some.mp there).1
  marks rests clear cid row here := by
    refine (kept.marks rests clear cid row here).imp_right ?_
    rintro ⟨id', run, is_, there, awaits⟩
    refine ⟨id', run, is_, Dict.get?_pop_eq_some.mpr ⟨there, ?_⟩, awaits⟩
    rintro rfl
    exact other is_

theorem Kept.ends (kept : Kept m s) (there : s.runs.get? id = some ⟨[], none⟩) :
    Kept m { s with runs := s.runs.pop id } := by
  by_cases last : s.current = some id
  · exact {
      superseded := kept.superseded
      begun := fun id' run there' => kept.begun id' run (Dict.get?_pop_eq_some.mp there').1
      current := kept.current
      last := kept.last
      writer := kept.writer
      reads := fun rests id' rest cid rule is_ there' =>
        kept.reads rests id' rest cid rule is_ (Dict.get?_pop_eq_some.mp there').1
      marks := fun rests clear cid row here => by
        -- it awaits no candidate any more
        obtain marked | ⟨id', run, is_, there', awaits⟩ := kept.marks rests clear cid row here
        · exact .inl marked
        · cases last.symm.trans is_
          cases there.symm.trans there'
          cases awaits with
          | inl mem => nomatch mem
          | inr works => nomatch works }
  · exact kept.superseded_ends last

theorem Kept.goes_on (kept : Kept m s) {cid : Cid}
    (there : s.runs.get? id = some ⟨cid :: rest, none⟩) (last : s.current = some id) :
    Kept m { s with runs := s.runs.set id ⟨rest, some (cid, s.rule)⟩ } where
  superseded := kept.superseded
  begun id' run there' := by
    rw [Dict.get?_set] at there'
    split_ifs at there' with same
    · rw [same]
      exact kept.begun id _ there
    · exact kept.begun id' run there'
  current := kept.current
  last := kept.last
  writer := kept.writer
  reads _ id' rest' cid' rule is_ there' := by
    cases last.symm.trans is_
    rw [Dict.get?_set_self, Option.some.injEq, MarkRun.mk.injEq, Option.some.injEq, Prod.mk.injEq]
      at there'
    exact there'.2.2.symm
  marks rests clear cid' row here := by
    obtain marked | ⟨id', run, is_, there', awaits⟩ := kept.marks rests clear cid' row here
    · exact .inl marked
    · cases last.symm.trans is_
      cases there.symm.trans there'
      refine .inr ⟨id, _, last, Dict.get?_set_self, ?_⟩
      obtain mem | works := awaits
      · cases List.mem_cons.mp mem with
        | inl same => exact .inr (by rw [same])
        | inr mem => exact .inl mem
      · nomatch works

theorem Kept.fail (kept : Kept m s) {work : Cid × Rule}
    (there : s.runs.get? id = some ⟨rest, some work⟩) :
    Kept m { s with runs := s.runs.set id ⟨rest, none⟩, failed := true } where
  superseded := kept.superseded
  begun id' run there' := by
    rw [Dict.get?_set] at there'
    split_ifs at there' with same
    · rw [same]
      exact kept.begun id _ there
    · exact kept.begun id' run there'
  current := kept.current
  last := kept.last
  writer := kept.writer
  reads rests id' rest' cid' rule is_ there' := by
    rw [Dict.get?_set] at there'
    split_ifs at there' with same
    · nomatch there'
    · exact kept.reads rests id' rest' cid' rule is_ there'
  marks _ clear := nomatch clear

theorem get?_written {cid cid' : Cid} {rule : Rule} {row : MarkedRow Key Value}
    (here : (s.rows.map fun cid' row => if cid' = cid then m.write id cid rule row else row).get? cid' =
      some row) :
    ∃ before, s.rows.get? cid' = some before ∧
      (cid' = cid ∧ row = m.write id cid rule before ∨ cid' ≠ cid ∧ row = before) := by
  rw [Dict.get?_map] at here
  obtain ⟨before, there, rfl⟩ := Option.map_eq_some_iff.mp here
  refine ⟨before, there, ?_⟩
  split_ifs with same
  · exact .inl ⟨same, rfl⟩
  · exact .inr ⟨same, rfl⟩

theorem Kept.mark (kept : Kept m s) {cid : Cid} {rule : Rule}
    (there : s.runs.get? id = some ⟨rest, some (cid, rule)⟩)
    (timely : ∀ row, s.rows.get? cid = some row →
      (∀ writer, row.writer = some writer → writer ≤ id) ∧ m.Clears rule cid row) :
    Kept m { s with
      rows := s.rows.map fun cid' row => if cid' = cid then m.write id cid rule row else row
      runs := s.runs.set id ⟨rest, none⟩
      overwritten := s.overwritten ||
        (s.rows.get? cid).any fun row => row.writer.any fun writer => id < writer } where
  superseded := by
    rw [kept.superseded, Bool.false_or]
    refine Bool.eq_false_iff.mpr fun late => ?_
    obtain ⟨row, here, later⟩ := (Option.any_eq_true ..).mp late
    obtain ⟨writer, is_, later⟩ := (Option.any_eq_true ..).mp later
    exact absurd ((timely row here).1 writer is_) (Nat.not_le.mpr (of_decide_eq_true later))
  begun id' run there' := by
    rw [Dict.get?_set] at there'
    split_ifs at there' with same
    · rw [same]
      exact kept.begun id _ there
    · exact kept.begun id' run there'
  current := kept.current
  last := kept.last
  writer cid' row writer here is_ := by
    obtain ⟨before, before_, ⟨-, rfl⟩ | ⟨-, rfl⟩⟩ := get?_written here
    · cases is_
      exact kept.begun id _ there
    · exact kept.writer cid' row writer before_ is_
  reads rests id' rest' cid' rule' is_ there' := by
    rw [Dict.get?_set] at there'
    split_ifs at there' with same
    · nomatch there'
    · exact kept.reads rests id' rest' cid' rule' is_ there'
  marks rests clear cid' row here := by
    obtain ⟨before, there', ⟨rfl, rfl⟩ | ⟨other, rfl⟩⟩ := get?_written here
    · obtain ⟨latest, clears⟩ := timely before there'
      by_cases last : s.current = some id
      · -- the run that began last marks it under the latest rule
        obtain rfl := kept.reads rests id rest cid' rule last there
        exact .inl ⟨last.symm, m.write_marked clears⟩
      · -- another run writes what the one that began last has not written
        refine .inr ?_
        obtain ⟨is_, -⟩ | ⟨id', run, is_, running, awaits⟩ := kept.marks rests clear cid' before there'
        · obtain ⟨newest, current, le⟩ := kept.current id (kept.begun id _ there)
          have same := Nat.le_antisymm (latest newest (is_.trans current)) le
          exact absurd (same ▸ current) last
        · refine ⟨id', run, is_, ?_, awaits⟩
          rw [Dict.get?_set_of_ne]
          · exact running
          · rintro rfl
            exact last is_
    · obtain marked | ⟨id', run, is_, running, awaits⟩ := kept.marks rests clear cid' row there'
      · exact .inl marked
      · refine .inr ?_
        by_cases same : id' = id
        · subst same
          cases there.symm.trans running
          refine ⟨id', _, is_, Dict.get?_set_self, .inl ?_⟩
          obtain mem | works := awaits
          · exact mem
          · exact absurd (congrArg Prod.fst (Option.some.inj works)).symm other
        · exact ⟨id', run, is_, (Dict.get?_set_of_ne same).trans running, awaits⟩

theorem Kept.step {ev : MarkEvent Rule Cid} (kept : Kept m s) (timely : Timely m s ev)
    (taken : s.step m ev = some s') : Kept m s' := by
  cases ev with
  | change rule =>
    cases taken
    exact kept.change rule
  | start order =>
    obtain ⟨guard, rfl⟩ := of_guard taken
    exact kept.start guard.2
  | next id =>
    rw [Remarks.step] at taken
    split at taken
    · next cid rest there =>
      split_ifs at taken with last
      · cases taken
        exact kept.goes_on there last
      · cases taken
        exact kept.superseded_ends last
    · next there =>
      cases taken
      exact kept.ends there
    · nomatch taken
  | mark id =>
    rw [Remarks.step] at taken
    split at taken
    · next rest cid rule there =>
      cases taken
      exact kept.mark there fun row here => timely rest cid rule row there here
    · nomatch taken
  | fail id =>
    rw [Remarks.step] at taken
    split at taken
    · next rest work there =>
      cases taken
      exact kept.fail there
    · nomatch taken

structure Opened (m : Marker Rule Cid Key Value) (s : Remarks Rule Cid Key Value) : Prop where
  spawned : s.spawned = 0
  begun : s.begun = 0
  current : s.current = none
  runs : s.runs = .empty
  overwritten : s.overwritten = false
  writer : ∀ cid row, s.rows.get? cid = some row → row.writer = none
  marked : ∀ cid row, s.rows.get? cid = some row → m.Marked s.rule cid row

theorem Opened.kept (opened : Opened m s) : Kept m s where
  superseded := opened.overwritten
  begun id run there := by
    rw [opened.runs] at there
    nomatch there
  current id before := by
    rw [opened.begun] at before
    nomatch before
  last last is_ := by
    rw [opened.current] at is_
    nomatch is_
  writer cid row writer here is_ := by
    rw [opened.writer cid row here] at is_
    nomatch is_
  reads _ id rest cid rule is_ := by
    rw [opened.current] at is_
    nomatch is_
  marks _ _ cid row here := by
    refine .inl ⟨?_, opened.marked cid row here⟩
    rw [opened.writer cid row here, opened.current]

/-- The marks of a candidate are the rule that they are under. -/
def byRule (rule _cid : Nat) : Verdict (List Char) Nat :=
  ⟨rule, rule, 0, rule, Dict.empty.set "in_sample".toList rule⟩

def ruledRow (rule : Nat) (writer : Option Nat) : MarkedRow (List Char) Nat :=
  ⟨rule, rule, 0, rule, Dict.empty.set "in_sample".toList rule, writer⟩

/-- One candidate was marked, and the rule was not changed yet. -/
def unmarked : Remarks Nat Nat (List Char) Nat :=
  ⟨0, Dict.empty.set 7 (ruledRow 0 none), 0, 0, none, .empty, false, false⟩

/-- The rule is changed twice, and the first run waits for its marks when the second one begins. The second
one writes last, or the first one does. -/
def twoRules (late : Bool) : List (MarkEvent Nat Nat) :=
  [.change 1, .start [7], .next 0, .change 2, .start [7], .next 1] ++
    (if late then [.mark 1, .mark 0] else [.mark 0, .mark 1]) ++ [.next 0, .next 1]

def bothEnded (rule writer : Nat) (overwritten : Bool) : Remarks Nat Nat (List Char) Nat :=
  ⟨2, Dict.empty.set 7 (ruledRow rule (some writer)), 0, 2, some 1, .empty, false, overwritten⟩

theorem twoRules_early :
    (twoRules false).foldlM (step (remark byRule)) unmarked = some (bothEnded 2 1 false) := by
  with_unfolding_all decide

theorem twoRules_late :
    (twoRules true).foldlM (step (remark byRule)) unmarked = some (bothEnded 1 0 true) := by
  with_unfolding_all decide

theorem of_get?_single {cid : Nat} (row' : MarkedRow (List Char) Nat) {row : MarkedRow (List Char) Nat}
    (here : (Dict.empty.set 7 row').get? cid = some row) : cid = 7 ∧ row = row' := by
  rw [Dict.get?_set] at here
  split_ifs at here with same
  · exact ⟨same, (Option.some.inj here).symm⟩
  · nomatch here

theorem ruledRow_marked (rule : Nat) (writer : Option Nat) :
    (remark byRule).Marked rule 7 (ruledRow rule writer) :=
  ⟨rfl, rfl, rfl, rfl, fun _ _ => rfl⟩

theorem unmarked_opened : Opened (remark byRule) unmarked where
  spawned := rfl
  begun := rfl
  current := rfl
  runs := rfl
  overwritten := rfl
  writer cid row here := by
    obtain ⟨-, rfl⟩ := of_get?_single _ here
    rfl
  marked cid row here := by
    obtain ⟨rfl, rfl⟩ := of_get?_single _ here
    exact ruledRow_marked 0 none

theorem ruledRow_clears (rule rule' : Nat) (writer : Option Nat) :
    (remark byRule).Clears rule 7 (ruledRow rule' writer) := by
  intro key _ _ none_
  change (Dict.empty.set "in_sample".toList rule).get? key = none at none_
  show (Dict.empty.set "in_sample".toList rule').get? key = none
  rw [Dict.get?_set] at none_ ⊢
  split_ifs at none_ ⊢
  exact none_

end Remarks

end FreeSwarm.Objectives
