import FreeSwarm.Foundation.Machine
import FreeSwarm.Objectives.Candidates

/-!
# What happens to an objective

The control plane runs one task at a time, and a task goes on without a break until it waits. Such a part
of a task is a step: a request that is answered at once, or the end of something that was waited for. An
evaluation waits for its runs, with the objective as it was when it was read.
-/

namespace FreeSwarm.Objectives

open FreeSwarm.Foundation

/-- How the runs of an evaluation end. -/
inductive Outcome where
  | failed
  | scored (score : Option Score)
  | raised (others : List CandidateId)
  | sandboxDown
  deriving DecidableEq

/-- A step. The modules that a step quarantines are given by the scripts that import one of them. -/
inductive Event where
  /-- `patch_objective`: candidates may be submitted, or not. -/
  | patch (running : Bool)
  /-- `submit`: a candidate comes in. -/
  | submit (cid : CandidateId) (code : Text) (members : List Member)
  /-- `rerun`: a candidate is evaluated again. -/
  | rerun (cid : CandidateId)
  | evaluated (e : Evaluation) (outcome : Outcome) (imports : Text → Bool)
  | reviewed (e : Evaluation) (imports : Text → Bool)
  /-- `_settle_lookahead`: a look-ahead test ends. -/
  | settleLookahead (cid : CandidateId) (verdict : Lookahead) (imports : Text → Bool)
  /-- `_finish_short_tests`: the rest of a look-ahead test begins. -/
  | beginShortTest (cid : CandidateId)
  /-- `_finish_short_test`: it ends, with a verdict or without one. -/
  | finishShortTest (test : ShortTest) (verdict : Option Lookahead) (imports : Text → Bool)
  /-- `audit`: an auditor answers. -/
  | audit (cid : CandidateId) (passed : Bool) (imports : Text → Bool)
  /-- `run_audit`: the operator asks for an audit. -/
  | runAudit (cid : CandidateId)
  /-- `judge`: a judge answers. -/
  | judge (cid : CandidateId) (score : Score)
  /-- `demote`: the operator disqualifies a candidate. -/
  | demote (cid : CandidateId) (imports : Text → Bool)
  /-- `retire_modules`: modules are quarantined on their own merits. -/
  | retireModules (imports : Text → Bool)
  /-- `start_retest`: the first candidates are to be tested again. -/
  | startRetest (top : Nat)
  /-- `_retest`: the next one was tested again. -/
  | retested (verdict : Lookahead) (imports : Text → Bool)
  | cancelRetest
  /-- `rescore_stored`: the scores are computed again from what is kept. -/
  | rescore (scores : CandidateId → Option (Option Score))
  /-- `_remark`, `_rescore_task`: the candidates are to be scored again, one after the other. -/
  | startRemark
  | remarked (score : Option (Option Score)) (recrown : Bool)
  /-- `delete_candidates`. -/
  | delete (ids : List CandidateId)
  /-- `ensembles.create`: some candidates are combined. -/
  | combine (cid : CandidateId) (code : Text) (members : List CandidateId) (score : Option Score)
  | restart (resumed : CandidateId → Bool)

/-- What an evaluation writes. -/
def Objective.fieldsOf (obj : Objective) (score : Option Score) : Fields :=
  match obj.kind with
  | .returns | .task =>
    { status := some .ok
      score := some score
      lookahead := if obj.checks then some .pending else none }
  | .reported => { status := some .ok, score := some score }
  | .judge => { status := some .ok }

namespace Store
variable (obj : Objective) (s : Store)

def nextSeq : Nat := (s.candidates.entries.map fun pair => pair.2.seq).foldl max s.seqHwm + 1

variable (cid : CandidateId)

/-- A candidate comes in that is being evaluated. -/
def insert (code : Text) (ensemble : Bool) (members : List Member) : Store :=
  { s with
    candidates := s.candidates.set cid
      { seq := s.nextSeq
        ensemble := ensemble
        code := code
        members := members
        status := .evaluating
        score := none
        lookahead := .skipped
        audit := .none }
    seqHwm := s.nextSeq }

/-- The end of `evaluate`: the look-ahead test is left to run, or the candidate is settled. -/
def conclude (e : Evaluation) (fields : Fields) (imports : Text → Bool) : Store :=
  if fields.lookahead = some .pending then
    let s := s.update e.candidate fields
    { s with tests := e.candidate :: s.tests }
  else s.settle obj e.bestId e.candidate fields imports

def evaluated (e : Evaluation) (outcome : Outcome) (imports : Text → Bool) : Store :=
  let s := { s with evaluations := s.evaluations.erase e }
  match outcome with
  | .failed => s.conclude obj e { status := some .error } imports
  | .scored score =>
    let fields := obj.fieldsOf score
    if obj.kind = .task then
      let s := s.update e.candidate fields
      { s with evaluations := { e with scored := some fields } :: s.evaluations }
    else s.conclude obj e fields imports
  | .raised others =>
    let s := s.update e.candidate { status := some .error }
    if e.rerun then s
    else { s with candidates := s.candidates.map fun id c =>
      if id ∈ others ∧ c.status = .evaluating then { c with status := .error } else c }
  | .sandboxDown =>
    if e.rerun then s.update e.candidate { status := some .error }
    else { s with candidates := s.candidates.pop e.candidate }

/-- `_settle_lookahead`: the test ends. Nothing is done for a candidate that was deleted, re-run or
re-tested meanwhile. -/
def settleLookahead (verdict : Lookahead) (imports : Text → Bool) : Store :=
  let s := { s with tests := s.tests.erase cid }
  match s.candidates.get? cid with
  | none => s
  | some c =>
    if c.lookahead ≠ .pending then s
    else s.settle obj s.bestId cid
      { status := some c.status, score := some c.score, lookahead := some verdict } imports

/-- `_finish_short_test`: the rest of the test ends. -/
def finishShortTest (test : ShortTest) (verdict : Option Lookahead) (imports : Text → Bool) : Store :=
  let s := { s with shortTests := s.shortTests.erase test }
  match verdict, s.candidates.get? test.candidate with
  | some verdict, some c =>
    if verdict = .error ∨ c.lookahead ≠ .short then s
    else s.settle obj s.bestId test.candidate
      { status := some test.status, score := some test.score, lookahead := some verdict } imports
  | _, _ => s

/-- `audit`: a candidate that passed takes the title if it is better than the one that holds it. What
failed is disqualified with what it is built on, and with what is built on it. -/
def audit (cid : CandidateId) (c : Candidate) (passed : Bool) (imports : Text → Bool) : Store :=
  if passed then
    if better c.score (s.bestScore s.bestId) obj.higherIsBetter then
      ((s.note .earned cid c.score).update cid { audit := some .pass }).crown cid
    else s.update cid { audit := some .pass }
  else
    ((s.update cid { audit := some .fail }).cascadeQuarantine obj imports (some cid)).disqualifyDependents
      obj [cid] []

/-- `judge`: a candidate is scored, and takes the title or needs an audit if it is better than the one
that holds it. -/
def judge (score : Score) : Store :=
  let fields : Fields := { score := some (some score) }
  if better (some score) (s.bestScore s.bestId) true then
    if obj.requireAudit then
      (s.note .contended cid (some score)).update cid { fields with audit := some .pending }
    else ((s.note .earned cid (some score)).update cid fields).crown cid
  else s.update cid fields

/-- `demote`: a candidate is disqualified, and hands the title on if it held it. -/
def demote (imports : Text → Bool) : Store :=
  let champion : Bool := s.bestId = some cid
  let s := s.update cid { audit := some .fail }
  let s := if champion then s.handOver obj else s
  (s.cascadeQuarantine obj imports (some cid)).disqualifyDependents obj [cid] []

/-- `_retest`: what the test of a candidate says that was made again. -/
def retested (verdict : Lookahead) (imports : Text → Bool) : Store :=
  if verdict = .pass then s.update cid { lookahead := some .pass }
  else if verdict = .error then s
  else
    let champion : Bool := s.bestId = some cid
    let s := s.update cid { lookahead := some .fail }
    let s := if champion then s.handOver obj else s
    (s.cascadeQuarantine obj imports (some cid)).disqualifyDependents obj [cid] []

/-- `delete_candidates`: candidates are deleted that are not being evaluated and do not wait to be tested
again. The title is handed on if the one that held it is not there any more. -/
def delete (ids : List CandidateId) : Store :=
  let s := { s with candidates := s.candidates.filter fun id c =>
    ¬(id ∈ ids ∧ c.status ≠ .evaluating ∧ id ∉ s.retest.getD []) }
  if s.bestId.isSome ∧ s.best s.bestId = none then s.handOver obj else s

/-- The candidates that were evaluated have new scores, as far as these are computed. -/
def rescore (scores : CandidateId → Option (Option Score)) : Store :=
  { s with candidates := s.candidates.map fun id c =>
    if c.status = .ok then { c with score := (scores id).getD c.score } else c }

/-- `ineligible`: the candidate may not be a member of an ensemble. -/
def MayCombine (c : Candidate) : Prop :=
  c.ensemble = false ∧ c.status = .ok ∧ c.lookahead = .pass ∧ c.audit ≠ .fail

instance decidableMayCombine (c : Candidate) : Decidable (MayCombine c) :=
  inferInstanceAs (Decidable (_ ∧ _ ∧ _ ∧ _))

/-- `ensembles.create`: the ensemble is recorded and settled. -/
def combine (code : Text) (members : List (CandidateId × Candidate))
    (score : Option Score) : Store :=
  (s.insert cid code true (members.map fun pair => ⟨some pair.1, pair.2.seq⟩)).settle obj s.bestId cid
    { status := some .ok, score := some score, lookahead := some .pass } fun _ => false

/-- The control plane starts again. Look-ahead tests that do not go on are written off. -/
def restart (resumed : CandidateId → Bool) : Store :=
  let resumes : CandidateId → Candidate → Bool := fun id c =>
    c.lookahead = .pending && c.status = .ok && obj.checks && resumed id
  let candidates := s.candidates.map fun _ c =>
    if c.status = .evaluating then { c with status := .error } else c
  { s with
    candidates := candidates.map fun id c =>
      if c.lookahead = .pending ∧ resumes id c = false then { c with lookahead := .error } else c
    evaluations := []
    tests := (candidates.entries.filter fun pair => resumes pair.1 pair.2).map Prod.fst
    shortTests := []
    retest := none
    remark := [] }

def step (s : Store) : Event → Option Store
  | .patch running => some { s with running := running }
  | .submit cid code members =>
    if s.running ∧ s.candidates.get? cid = none then
      some { s.insert cid code false members with
        evaluations := ⟨cid, s.bestId, false, none⟩ :: s.evaluations }
    else none
  | .rerun cid =>
    match s.candidates.get? cid with
    | none => none
    | some c =>
      if c.status ≠ .evaluating ∧ c.ensemble = false ∧
          (c.status = .error ∨ c.lookahead = .error ∨ c.score = none) ∧ s.bestId ≠ some cid then
        some { s.update cid ⟨some .evaluating, some none, some .skipped, some .none⟩ with
          evaluations := ⟨cid, s.bestId, true, none⟩ :: s.evaluations }
      else none
  | .evaluated e outcome imports =>
    if e ∈ s.evaluations ∧ e.scored = none then some (s.evaluated obj e outcome imports) else none
  | .reviewed e imports =>
    if e ∈ s.evaluations then
      e.scored.map fun fields =>
        { s with evaluations := s.evaluations.erase e }.conclude obj e fields imports
    else none
  | .settleLookahead cid verdict imports =>
    if cid ∈ s.tests ∧ verdict ∈ [Lookahead.pass, .fail, .error, .short] then
      some (s.settleLookahead obj cid verdict imports)
    else none
  | .beginShortTest cid =>
    match s.candidates.get? cid with
    | none => none
    | some c =>
      if c.Ranked ∧ c.lookahead = .short ∧ cid ∉ s.shortTests.map ShortTest.candidate then
        some { s with shortTests := ⟨cid, c.status, c.score⟩ :: s.shortTests }
      else none
  | .finishShortTest test verdict imports =>
    if test ∈ s.shortTests ∧ ∀ v, verdict = some v → v ∈ [Lookahead.pass, .fail, .error] then
      some (s.finishShortTest obj test verdict imports)
    else none
  | .audit cid passed imports =>
    (s.candidates.get? cid).map fun c => s.audit obj cid c passed imports
  | .runAudit cid =>
    match s.candidates.get? cid with
    | none => none
    | some c =>
      if c.audit ∉ [Audit.pass, .fail] ∧ c.status = .ok ∧ c.score.isSome then
        some (s.update cid { audit := some .pending })
      else none
  | .judge cid score =>
    if obj.kind = .judge ∧ (s.candidates.get? cid).isSome then some (s.judge obj cid score) else none
  | .demote cid imports =>
    if (s.candidates.get? cid).isSome then some (s.demote obj cid imports) else none
  | .retireModules imports => some (s.cascadeQuarantine obj imports none)
  | .startRetest top =>
    let ids := ((ranked obj s.candidates top).filter fun pair => !pair.2.ensemble).map Prod.fst
    if s.retest = none then some { s with retest := if ids = [] then none else some ids } else none
  | .retested verdict imports =>
    match s.retest with
    | some (cid :: rest) =>
      if (s.candidates.get? cid).isSome ∧ verdict ∈ [Lookahead.pass, .fail, .error] then
        some ({ s with retest := if rest = [] then none else some rest }.retested obj cid verdict imports)
      else none
    | _ => none
  | .cancelRetest => some { s with retest := none }
  | .rescore scores =>
    if obj.kind = .returns ∨ obj.kind = .task then
      some ((s.rescore scores).recrown obj)
    else none
  | .startRemark =>
    if obj.kind = .returns ∨ obj.kind = .task then
      some { s with remark := (s.candidates.entries.filter fun pair => pair.2.status = Status.ok).map Prod.fst }
    else none
  | .remarked score recrown =>
    match s.remark with
    | [] => none
    | cid :: rest =>
      let s := { s with remark := rest }
      let s := match score with
        | none => s
        | some score => s.update cid { score := some score }
      some (if recrown then s.recrown obj else s)
  | .delete ids => some (s.delete obj ids)
  | .combine cid code ids score =>
    let members := s.candidates.entries.filter fun pair => pair.1 ∈ ids
    if obj.kind = .returns ∧ s.candidates.get? cid = none ∧
        (∀ id ∈ ids, (s.candidates.get? id).isSome) ∧ (∀ pair ∈ members, MayCombine pair.2) ∧
        2 ≤ members.length ∧ members.length ≤ 8 then
      some (s.combine obj cid code members score)
    else none
  | .restart resumed => some (s.restart obj resumed)

end Store

end FreeSwarm.Objectives
