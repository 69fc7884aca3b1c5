import FreeSwarm.Objectives.Holder
import Mathlib.Logic.Relation

/-!
# What goes with a candidate that is disqualified

An ensemble names its members, and a script the candidates whose positions it asks for, each of which may
name others. A sweep looks at each candidate once, and takes those that name the candidate it is about or
one that is built on the same modules. What names one of these is taken only if it is reached in the same
way.
-/

namespace FreeSwarm.Objectives

open FreeSwarm.Foundation

def Member.Names (m : Member) (id : CandidateId) (c : Candidate) : Prop := m.id = some id ∨ m.seq = c.seq

instance Member.decidableNames (m : Member) (id : CandidateId) (c : Candidate) :
    Decidable (m.Names id c) :=
  inferInstanceAs (Decidable (_ ∨ _))

namespace Store

variable {obj : Objective} {s s' : Store} {rows : Candidates}

def Runs (rows : Candidates) (id id' : CandidateId) : Prop :=
  ∃ c c', rows.get? id = some c ∧ rows.get? id' = some c' ∧ ∃ m ∈ c.members, m.Names id' c'

def OutOf (rows : Candidates) (id : CandidateId) : Prop :=
  ∃ c, rows.get? id = some c ∧ c.Disqualified

/-- Whatever runs a disqualified candidate is disqualified, through however many others it does. -/
def Swept (rows : Candidates) : Prop :=
  ∀ id id', Relation.TransGen (Runs rows) id id' → OutOf rows id' → OutOf rows id

theorem swept_iff_runs :
    Swept rows ↔ ∀ id id', Runs rows id id' → OutOf rows id' → OutOf rows id := by
  constructor
  · exact fun swept id id' runs => swept id id' (.single runs)
  · intro one id id' path
    induction path using Relation.TransGen.head_induction_on with
    | single runs => exact one _ _ runs
    | head runs _ ih => exact fun out => one _ _ runs (ih out)

/-! ## One pass -/

variable {hit : CandidateId → Candidate → Bool}

theorem runs_disqualified {id id' : CandidateId} :
    Runs (disqualified rows hit) id id' ↔ Runs rows id id' := by
  constructor
  · rintro ⟨c, c', here, here', m, mem, names⟩
    rw [get?_disqualified] at here here'
    obtain ⟨d, there, rfl⟩ := Option.map_eq_some_iff.mp here
    obtain ⟨d', there', rfl⟩ := Option.map_eq_some_iff.mp here'
    refine ⟨d, d', there, there', m, ?_, ?_⟩
    · split_ifs at mem <;> exact mem
    · split_ifs at names <;> exact names
  · rintro ⟨c, c', here, here', m, mem, names⟩
    have row : (disqualified rows hit).get? id = _ := get?_disqualified
    have row' : (disqualified rows hit).get? id' = _ := get?_disqualified
    rw [here, Option.map_some] at row
    rw [here', Option.map_some] at row'
    refine ⟨_, _, row, row', m, ?_, ?_⟩
    · split_ifs <;> exact mem
    · split_ifs <;> exact names

theorem outOf_disqualified {id : CandidateId} :
    OutOf (disqualified rows hit) id ↔
      ∃ c, rows.get? id = some c ∧ (c.Disqualified ∨ hit id c = true) := by
  constructor
  · rintro ⟨c, here, out⟩
    rw [get?_disqualified] at here
    obtain ⟨d, there, rfl⟩ := Option.map_eq_some_iff.mp here
    refine ⟨d, there, ?_⟩
    split_ifs at out with hits
    · exact .inr hits
    · exact .inl out
  · rintro ⟨c, here, out⟩
    have row : (disqualified rows hit).get? id = _ := get?_disqualified
    rw [here, Option.map_some] at row
    refine ⟨_, row, ?_⟩
    split_ifs with hits
    · exact .inl rfl
    · exact out.resolve_right hits

theorem mem_seqs {ids : List CandidateId} {n : Nat} :
    (n ∈ (rows.entries.filter fun pair => pair.1 ∈ ids).map fun pair => pair.2.seq) ↔
      ∃ id ∈ ids, ∃ c, rows.get? id = some c ∧ n = c.seq := by
  rw [List.mem_map]
  constructor
  · rintro ⟨⟨id, c⟩, mem, rfl⟩
    obtain ⟨listed, wanted⟩ := List.mem_filter.mp mem
    exact ⟨id, of_decide_eq_true wanted, c, Dict.mem_entries_iff.mp listed, rfl⟩
  · rintro ⟨id, wanted, c, here, rfl⟩
    exact ⟨(id, c), List.mem_filter.mpr ⟨Dict.mem_entries_iff.mpr here, decide_eq_true wanted⟩, rfl⟩

/-- What a sweep takes names one of the candidates, and is not disqualified yet. -/
theorem dependents_iff {ids : List CandidateId} {seqs : List Nat} {cid : CandidateId} {c : Candidate} :
    dependents rows ids seqs cid c = true ↔
      c.audit ≠ .fail ∧ ∃ m ∈ c.members, m.seq ∈ seqs ∨ ∃ id ∈ ids, m.id = some id ∨
        ∃ d, rows.get? id = some d ∧ m.seq = d.seq := by
  rw [dependents, Dependent, Bool.and_eq_true_iff, decide_eq_true_iff, List.any_eq_true]
  refine and_congr_right fun _ => exists_congr fun m => and_congr_right fun _ => ?_
  rw [Bool.or_eq_true_iff, decide_eq_true_iff, List.mem_append, mem_seqs, Option.any_eq_true]
  constructor
  · rintro (⟨id, same, mem⟩ | mem | ⟨id, wanted, d, here, same⟩)
    · exact .inr ⟨id, of_decide_eq_true mem, .inl same⟩
    · exact .inl mem
    · exact .inr ⟨id, wanted, .inr ⟨d, here, same⟩⟩
  · rintro (mem | ⟨id, wanted, same | ⟨d, here, same⟩⟩)
    · exact .inr (.inl mem)
    · exact .inl ⟨id, same, decide_eq_true wanted⟩
    · exact .inr (.inr ⟨id, wanted, d, here, same⟩)

/-! ## The sweep -/

/-- What is done when candidates are disqualified. -/
structure Sweep where
  rows : Candidates
  imports : Text → Bool
  origin : Option CandidateId
  ids : List CandidateId

/-- What is disqualified by a verdict, if there is one. -/
def sweep? (s : Store) : Event → Option Sweep
  | .demote cid imports => some ⟨(s.update cid { audit := some .fail }).candidates, imports, some cid, [cid]⟩
  | .audit cid false imports =>
    some ⟨(s.update cid { audit := some .fail }).candidates, imports, some cid, [cid]⟩
  | .retested .fail imports =>
    match s.retest with
    | some (cid :: _) =>
      some ⟨(s.update cid { lookahead := some .fail }).candidates, imports, some cid, [cid]⟩
    | _ => none
  | .retireModules imports => some ⟨s.candidates, imports, none, []⟩
  | _ => none

namespace Sweep

variable (w : Sweep)

/-- The rows after it. -/
def result (w : Sweep) : Candidates :=
  withoutDependents (withoutTainted w.rows w.imports w.origin) w.ids []

/-- The candidate names the one that is disqualified, or one that is built on its modules. -/
def Reaches (c : Candidate) : Prop :=
  ∃ m ∈ c.members, m.seq ∈ (tainted w.rows w.imports w.origin).map (fun pair => pair.2.seq) ∨
    ∃ id ∈ w.ids, m.id = some id ∨ ∃ d, w.rows.get? id = some d ∧ m.seq = d.seq

/-- The candidate is taken with the others: it is built on the modules, or names one that is, or the one
that is disqualified. -/
def Takes (id : CandidateId) (c : Candidate) : Prop :=
  Tainted w.imports w.origin id c = true ∨ w.Reaches c

/-- What is not taken names, apart from the candidate itself, nothing that was disqualified before and
nothing that is taken. -/
def Shallow : Prop :=
  ∀ id id' c c', w.rows.get? id = some c → w.rows.get? id' = some c' → (∃ m ∈ c.members, m.Names id' c') →
    ¬c.Disqualified → ¬w.Takes id c → id' ∉ w.ids → ¬c'.Disqualified ∧ ¬w.Takes id' c'

variable {imports : Text → Bool} {origin : Option CandidateId} {id : CandidateId}

theorem outOf_withoutTainted :
    OutOf (withoutTainted rows imports origin) id ↔
      ∃ c, rows.get? id = some c ∧ (c.Disqualified ∨ Tainted imports origin id c = true ∨
        ∃ m ∈ c.members, m.seq ∈ (tainted rows imports origin).map fun pair => pair.2.seq) := by
  rw [withoutTainted, withoutDependents, outOf_disqualified]
  simp only [dependents_iff, List.not_mem_nil, false_and, exists_false, or_false]
  constructor
  · rintro ⟨c, here, out⟩
    rw [get?_disqualified] at here
    obtain ⟨d, there, rfl⟩ := Option.map_eq_some_iff.mp here
    refine ⟨d, there, ?_⟩
    split_ifs at out with hits
    · exact .inr (.inl hits)
    · exact out.imp_right fun both => .inr both.2
  · rintro ⟨c, here, out⟩
    have row : (disqualified rows (Tainted imports origin)).get? id = _ := get?_disqualified
    rw [here, Option.map_some] at row
    refine ⟨_, row, ?_⟩
    split_ifs with hits
    · exact .inl (.inl rfl)
    · by_cases fail : c.audit = .fail
      · exact .inl (.inl fail)
      · exact out.imp_right fun either => ⟨fail, either.resolve_left hits⟩

theorem runs_withoutTainted {id id' : CandidateId} :
    Runs (withoutTainted rows imports origin) id id' ↔ Runs rows id id' := by
  rw [withoutTainted, withoutDependents, runs_disqualified, runs_disqualified]

theorem runs_result {id id' : CandidateId} : Runs w.result id id' ↔ Runs w.rows id id' := by
  rw [result, withoutDependents, runs_disqualified, runs_withoutTainted]

/-- A row after the modules are quarantined is the one before, but for the audit. -/
theorem withoutTainted_row
    {c : Candidate} (here : (withoutTainted rows imports origin).get? id = some c) :
    ∃ d, rows.get? id = some d ∧ c.members = d.members ∧ c.seq = d.seq := by
  rw [withoutTainted, withoutDependents, get?_disqualified, get?_disqualified] at here
  obtain ⟨d', row, rfl⟩ := Option.map_eq_some_iff.mp here
  obtain ⟨d, there, rfl⟩ := Option.map_eq_some_iff.mp row
  refine ⟨d, there, ?_, ?_⟩
  · split_ifs <;> rfl
  · split_ifs <;> rfl

theorem row_withoutTainted (imports : Text → Bool) (origin : Option CandidateId) {id : CandidateId}
    {d : Candidate} (here : rows.get? id = some d) :
    ∃ c, (withoutTainted rows imports origin).get? id = some c ∧ c.members = d.members ∧ c.seq = d.seq := by
  cases found : (withoutTainted rows imports origin).get? id with
  | none =>
    rw [withoutTainted, withoutDependents, get?_disqualified, get?_disqualified, here] at found
    cases found
  | some c =>
    obtain ⟨d', there, members, seq⟩ := withoutTainted_row found
    cases here.symm.trans there
    exact ⟨c, rfl, members, seq⟩

theorem outOf_result :
    OutOf w.result id ↔ ∃ c, w.rows.get? id = some c ∧ (c.Disqualified ∨ w.Takes id c) := by
  -- the candidates that are listed have the numbers that they had
  have numbers : ∀ m : Member, (∃ i ∈ w.ids, m.id = some i ∨ ∃ d,
        (withoutTainted w.rows w.imports w.origin).get? i = some d ∧ m.seq = d.seq) ↔
      ∃ i ∈ w.ids, m.id = some i ∨ ∃ d, w.rows.get? i = some d ∧ m.seq = d.seq := by
    intro m
    refine exists_congr fun i => and_congr_right fun _ => or_congr_right ?_
    constructor
    · rintro ⟨d, here, same⟩
      obtain ⟨d', there, -, seq⟩ := withoutTainted_row here
      exact ⟨d', there, same.trans seq⟩
    · rintro ⟨d, here, same⟩
      obtain ⟨d', there, -, seq⟩ := row_withoutTainted w.imports w.origin here
      exact ⟨d', there, same.trans seq.symm⟩
  rw [result, withoutDependents, outOf_disqualified]
  simp only [dependents_iff, List.not_mem_nil, false_or, numbers]
  constructor
  · rintro ⟨c, here, out | ⟨-, m, mem, names⟩⟩
    · obtain ⟨d, there, out⟩ := outOf_withoutTainted.mp ⟨c, here, out⟩
      refine ⟨d, there, out.imp_right (Or.imp_right ?_)⟩
      rintro ⟨m, mem, named⟩
      exact ⟨m, mem, .inl named⟩
    · obtain ⟨d, there, members, -⟩ := withoutTainted_row here
      exact ⟨d, there, .inr (.inr ⟨m, members ▸ mem, .inr names⟩)⟩
  · rintro ⟨d, there, out⟩
    obtain ⟨c, here, members, -⟩ := row_withoutTainted w.imports w.origin there
    refine ⟨c, here, ?_⟩
    by_cases before : OutOf (withoutTainted w.rows w.imports w.origin) id
    · obtain ⟨c', here', out'⟩ := before
      cases here.symm.trans here'
      exact .inl out'
    · -- it is not disqualified with the modules, so that it names the candidate itself
      rw [outOf_withoutTainted] at before
      have clear : c.audit ≠ .fail := fun fail =>
        before (outOf_withoutTainted.mp ⟨c, here, .inl fail⟩)
      obtain out | built | ⟨m, mem, named | names⟩ := out
      · exact absurd ⟨d, there, .inl out⟩ before
      · exact absurd ⟨d, there, .inr (.inl built)⟩ before
      · exact absurd ⟨d, there, .inr (.inr ⟨m, mem, named⟩)⟩ before
      · exact .inr ⟨clear, m, members.symm ▸ mem, names⟩

/-- A sweep takes all that rests on what is disqualified exactly if it has to look no deeper than it
does. -/
theorem swept_result_iff : Swept w.result ↔ w.Shallow := by
  rw [swept_iff_runs]
  simp only [runs_result, outOf_result]
  constructor
  · intro swept id id' c c' here here' names stands left _
    rw [← not_or]
    intro out
    obtain ⟨d, there, out⟩ := swept id id' ⟨c, c', here, here', names⟩ ⟨c', here', out⟩
    cases here.symm.trans there
    exact out.elim stands left
  · rintro shallow id id' ⟨c, c', here, here', names⟩ ⟨d', there', out⟩
    cases here'.symm.trans there'
    refine ⟨c, here, ?_⟩
    by_contra stands
    rw [not_or] at stands
    by_cases itself : id' ∈ w.ids
    · obtain ⟨m, mem, name | number⟩ := names
      · exact stands.2 (.inr ⟨m, mem, .inr ⟨id', itself, .inl name⟩⟩)
      · exact stands.2 (.inr ⟨m, mem, .inr ⟨id', itself, .inr ⟨c', here', number⟩⟩⟩)
    · obtain ⟨was, taken⟩ := shallow id id' c c' here here' names stands.1 stands.2 itself
      exact out.elim was taken

end Sweep

/-! ## Steps -/

theorem withoutDependents_nil : withoutDependents rows [] [] = rows := by
  refine disqualified_of_forall_not fun cid c _ => Bool.eq_false_of_not_eq_true fun hit => ?_
  obtain ⟨-, m, -, named | ⟨id, mem, -⟩⟩ := dependents_iff.mp hit
  · nomatch named
  · nomatch mem

theorem family_candidates (obj : Objective) (s : Store) (champion : Bool) (cid : CandidateId)
    (fields : Fields) (imports : Text → Bool) :
    ((if champion = true then (s.update cid fields).handOver obj else s.update cid fields).purge obj cid
      imports).candidates = purged (s.update cid fields).candidates cid imports := by
  rw [purge_candidates]
  cases champion with
  | false => rfl
  | true => rw [if_pos rfl, handOver_candidates]

theorem step_sweeps {ev : Event} {w : Sweep} (taken : s.step obj ev = some s')
    (sweeps : s.sweep? ev = some w) : s'.candidates = w.result := by
  cases ev with
  | demote cid imports =>
    obtain ⟨-, rfl⟩ := of_guard taken
    cases sweeps
    exact family_candidates obj s _ cid { audit := some .fail } imports
  | audit cid passed imports =>
    obtain ⟨c, here, rfl⟩ := Option.map_eq_some_iff.mp taken
    cases passed with
    | true => cases sweeps
    | false =>
      cases sweeps
      exact @purge_candidates obj (s.update cid { audit := some .fail }) cid imports
  | retested verdict imports =>
    cases verdict with
    | fail =>
      rw [step] at taken
      split at taken
      · next cid rest waiting =>
        obtain ⟨-, rfl⟩ := of_guard taken
        rw [sweep?, waiting] at sweeps
        cases sweeps
        exact family_candidates obj { s with retest := if rest = [] then none else some rest } _ cid
          { lookahead := some .fail } imports
      · cases taken
    | _ => cases sweeps
  | retireModules imports =>
    cases taken
    cases sweeps
    rw [cascadeQuarantine_candidates, Sweep.result, withoutDependents_nil]
  | _ => cases sweeps

/-- A script runs another one, which runs the one that the operator disqualifies. -/
def nested : List Event :=
  [.submit "leak".toList "one".toList [],
    .evaluated ⟨"leak".toList, none, false, none⟩ (.scored (some 2)) fun _ => false,
    .submit "router".toList "two".toList [⟨none, 1⟩],
    .evaluated ⟨"router".toList, some "leak".toList, false, none⟩ (.scored (some 1)) fun _ => false,
    .submit "outer".toList "three".toList [⟨none, 2⟩],
    .evaluated ⟨"outer".toList, some "leak".toList, false, none⟩ (.scored (some 0)) fun _ => false,
    .demote "leak".toList fun _ => false]

/-- The outer one holds the title. -/
def nestedLast : Store :=
  { opened with
    candidates := ((Dict.empty.set "leak".toList { reportedRow 1 "one".toList 2 with audit := .fail }).set
      "router".toList { reportedRow 2 "two".toList 1 with members := [⟨none, 1⟩], audit := .fail }).set
      "outer".toList { reportedRow 3 "three".toList 0 with members := [⟨none, 2⟩] }
    bestId := some "outer".toList
    seqHwm := 3
    log := [⟨.handed, "outer".toList, false, some 0, none⟩, ⟨.handed, "router".toList, false, some 1, none⟩,
      ⟨.earned, "leak".toList, false, some 2, none⟩] }

theorem nested_runs : nested.foldlM (step hitRate) opened = some nestedLast := by
  with_unfolding_all decide

end Store

end FreeSwarm.Objectives
