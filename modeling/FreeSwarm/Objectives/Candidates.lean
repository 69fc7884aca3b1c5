import FreeSwarm.Foundation.Dict
import FreeSwarm.Foundation.Text
import Mathlib.Algebra.Order.Ring.Rat
import Mathlib.Data.List.Sort

/-!
# The candidates of an objective

An objective keeps the candidates that were submitted to it and the title, which one of them holds. A
candidate that is scored may have to pass a look-ahead test and an audit before it takes the title; one
that is disqualified hands it on to the first of the ranked candidates.
-/

namespace FreeSwarm.Objectives

open FreeSwarm.Foundation

abbrev Text := List Char

abbrev CandidateId := Text

abbrev Score := ℚ

/-- How far a candidate is evaluated. -/
inductive Status where
  | evaluating
  | ok
  | error
  deriving DecidableEq

/-- What the look-ahead test says. -/
inductive Lookahead where
  | skipped
  | pending
  | pass
  | fail
  | error
  | short
  deriving DecidableEq

inductive Audit where
  | none
  | pending
  | pass
  | fail
  deriving DecidableEq

/-- What the score of a candidate is. -/
inductive Kind where
  | returns
  | task
  | reported
  | judge
  deriving DecidableEq

structure Objective where
  kind : Kind
  higherIsBetter : Bool
  splitDate : Option Text
  midCut : Option Text
  lookaheadCheck : Bool
  requireAudit : Bool
  higher : kind = .returns ∨ kind = .judge → higherIsBetter = true
  split : lookaheadCheck = true → splitDate.isSome = true

/-- `cuts`: where the look-ahead test cuts the data. -/
def Objective.cuts (obj : Objective) : List Text :=
  match obj.splitDate, obj.midCut with
  | some split, some mid => if mid < split then [split, mid] else [split]
  | some split, none => [split]
  | none, _ => []

def Objective.checks (obj : Objective) : Bool := obj.lookaheadCheck && !obj.cuts.isEmpty

/-- `_better`: a score is strictly better than another one. -/
def better (a b : Option Score) (higher : Bool) : Bool :=
  match a, b with
  | none, _ => false
  | some _, none => true
  | some a, some b => if higher then decide (b < a) else decide (a < b)

/-- A candidate that another one is made of. -/
structure Member where
  id : Option CandidateId
  seq : Nat
  deriving DecidableEq

structure Candidate where
  seq : Nat
  ensemble : Bool
  code : Text
  members : List Member
  status : Status
  score : Option Score
  lookahead : Lookahead
  audit : Audit
  deriving DecidableEq

/-- What is assigned to a row. What is not named stays as it is. -/
structure Fields where
  status : Option Status := none
  /-- `score`, which may be empty. -/
  score : Option (Option Score) := none
  lookahead : Option Lookahead := none
  audit : Option Audit := none
  deriving DecidableEq

namespace Candidate

variable (c : Candidate)

def assign (fields : Fields) : Candidate where
  seq := c.seq
  ensemble := c.ensemble
  code := c.code
  members := c.members
  status := fields.status.getD c.status
  score := fields.score.getD c.score
  lookahead := fields.lookahead.getD c.lookahead
  audit := fields.audit.getD c.audit

def Disqualified : Prop := c.audit = .fail ∨ c.lookahead = .fail

instance decidableDisqualified (c : Candidate) : Decidable c.Disqualified :=
  inferInstanceAs (Decidable (_ ∨ _))

def Ranked : Prop :=
  c.status = .ok ∧ c.score.isSome = true ∧ c.lookahead ∉ [Lookahead.fail, .error, .pending] ∧
    c.audit ≠ .fail

instance decidableRanked (c : Candidate) : Decidable c.Ranked :=
  inferInstanceAs (Decidable (_ ∧ _ ∧ _ ∧ _))

end Candidate

abbrev Candidates := Dict CandidateId Candidate

/-- A row is before another one on the leaderboard, or is the same. -/
def Outranks (higher : Bool) (p q : CandidateId × Candidate) : Prop :=
  better p.2.score q.2.score higher = true ∨ p.2.score = q.2.score ∧ p.2.seq ≤ q.2.seq

instance decidableOutranks (higher : Bool) : DecidableRel (Outranks higher) :=
  fun _ _ => inferInstanceAs (Decidable (_ ∨ _))

/-- `_ranked`: the rows of the leaderboard, the best one first. -/
def ranked (obj : Objective) (candidates : Candidates) (limit : Nat) :
    List (CandidateId × Candidate) :=
  ((candidates.entries.filter fun pair => pair.2.Ranked).insertionSort
    (Outranks obj.higherIsBetter)).take limit

/-- How a candidate comes near to the title. -/
inductive How where
  | contended
  | earned
  | handed
  deriving DecidableEq

/-- A candidate that contends for the title or takes it. -/
structure Title where
  how : How
  candidate : CandidateId
  disqualified : Bool
  score : Option Score
  holder : Option Score
  deriving DecidableEq

structure Evaluation where
  candidate : CandidateId
  bestId : Option CandidateId
  rerun : Bool
  scored : Option Fields
  deriving DecidableEq

/-- The rest of a look-ahead test that runs. -/
structure ShortTest where
  candidate : CandidateId
  status : Status
  score : Option Score
  deriving DecidableEq

/-- The state of an objective, and what runs for it. -/
structure Store where
  running : Bool
  candidates : Candidates
  /-- `best_id`: who holds the title. -/
  bestId : Option CandidateId
  seqHwm : Nat
  evaluations : List Evaluation
  tests : List CandidateId
  shortTests : List ShortTest
  retest : Option (List CandidateId)
  remark : List CandidateId
  log : List Title
  deriving DecidableEq

namespace Store
variable (obj : Objective) (s : Store)

/-- `_best`: the candidate that holds the title. -/
def best (s : Store) (bestId : Option CandidateId) : Option Candidate := bestId.bind s.candidates.get?

def bestScore (s : Store) (bestId : Option CandidateId) : Option Score :=
  (s.best bestId).bind Candidate.score

def Out (s : Store) (cid : CandidateId) : Prop := ∃ c, s.candidates.get? cid = some c ∧ c.Disqualified

instance decidableOut (s : Store) (cid : CandidateId) : Decidable (s.Out cid) :=
  decidable_of_iff ((s.candidates.get? cid).any fun c => c.Disqualified) (by
    rw [Out, Option.any_eq_true]
    simp only [decide_eq_true_iff])

/-- A candidate contends for the title or takes it. -/
def note (how : How) (cid : CandidateId) (score : Option Score) : Store :=
  { s with log := ⟨how, cid, s.Out cid, score, s.bestScore s.bestId⟩ :: s.log }

/-- `_update_candidate`. -/
def update (cid : CandidateId) (fields : Fields) : Store :=
  { s with candidates := s.candidates.map fun id c => if id = cid then c.assign fields else c }

def disqualify (hit : CandidateId → Candidate → Bool) : Store :=
  { s with candidates := s.candidates.map fun id c => if hit id c then { c with audit := .fail } else c }

def crown (cid : CandidateId) : Store := { s with bestId := some cid }

/-- The title goes to the first of the ranked candidates, if there is one. -/
def handOver : Store :=
  match ranked obj s.candidates 1 with
  | [] => { s with bestId := none }
  | (cid, c) :: _ => (({ s with bestId := none }).note .handed cid c.score).crown cid

variable (ids : List CandidateId)

def Dependent (seqs : List Nat) (c : Candidate) : Bool :=
  c.audit ≠ .fail && c.members.any fun m => m.id.any (fun id => id ∈ ids) || m.seq ∈ seqs

def seqsOf : List Nat :=
  (s.candidates.entries.filter fun pair => pair.1 ∈ ids).map fun pair => pair.2.seq

/-- `disqualify_dependents`: what is made of some candidates goes with them. -/
def disqualifyDependents (seqs : List Nat) : Store :=
  let hit : CandidateId → Candidate → Bool := fun _ c => Dependent ids (seqs ++ s.seqsOf ids) c
  let hits := s.candidates.entries.filter fun pair => hit pair.1 pair.2
  if hits = [] then s
  else if s.bestId.any fun best => best ∈ hits.map Prod.fst then (s.disqualify hit).handOver obj
  else s.disqualify hit

/-- The candidate is built on a module that is quarantined. -/
def Tainted (imports : Text → Bool) (origin : Option CandidateId) (id : CandidateId) (c : Candidate) :
    Bool :=
  c.status = .ok && c.audit ≠ .fail && some id ≠ origin && imports c.code

/-- `_cascade_quarantine`: the candidates that are built on the modules that were just quarantined are
disqualified, and the title is handed on if nobody holds it, or one of them does. -/
def cascadeQuarantine (imports : Text → Bool) (origin : Option CandidateId) : Store :=
  let hits := s.candidates.entries.filter fun pair => Tainted imports origin pair.1 pair.2
  if hits = [] then s
  else
    let s := (s.disqualify (Tainted imports origin)).disqualifyDependents obj []
      (hits.map fun pair => pair.2.seq)
    match s.best s.bestId with
    | none => s.handOver obj
    | some c => if c.audit = .fail then s.handOver obj else s

/-- What was scored may take the title, if it is better. -/
def MayWin (fields : Fields) : Bool :=
  fields.status = some .ok && fields.score.join.isSome &&
    (if obj.checks then fields.lookahead = some .pass else fields.lookahead ≠ some .fail)

/-- What was scored contends for the title with the candidate that held it when the objective was
read. -/
def Contends (bestId : Option CandidateId) (fields : Fields) : Bool :=
  MayWin obj fields && better fields.score.join (s.bestScore bestId) obj.higherIsBetter

/-- `_settle`: a verdict is written, and a candidate that contends takes the title or needs an audit. The
modules that a failed test retires are quarantined. -/
def settle (bestId : Option CandidateId) (cid : CandidateId) (fields : Fields)
    (imports : Text → Bool) : Store :=
  let contender := s.Contends obj bestId fields
  let s := if contender then
      s.note (if obj.requireAudit then .contended else .earned) cid fields.score.join
    else s
  let s := s.update cid
    (if contender && obj.requireAudit then { fields with audit := some .pending } else fields)
  let s := if fields.lookahead = some .fail then s.cascadeQuarantine obj imports (some cid) else s
  if contender && !obj.requireAudit then s.crown cid else s

def Tested (c : Candidate) : Bool := !obj.checks || c.lookahead = .pass

def MayHold (c : Candidate) : Bool := Tested obj c && (c.audit = .pass || !obj.requireAudit)

def takeTitle (champion : Option (CandidateId × Candidate)) : Store :=
  match champion with
  | some (cid, c) => if s.bestId = some cid then s else (s.note .handed cid c.score).crown cid
  | none => s

/-- `_recrown`: the first of the ranked candidates that may hold the title takes it, and one before it
that was not audited is to be. -/
def recrown : Store :=
  let rows := ranked obj s.candidates 200
  let champion := rows.find? fun pair => MayHold obj pair.2
  match rows.find? fun pair => Tested obj pair.2 with
  | some (cid, c) =>
    if obj.requireAudit ∧ champion.map Prod.fst ≠ some cid ∧ c.audit = .none then
      (s.takeTitle champion).update cid { audit := some .pending }
    else s.takeTitle champion
  | none => s.takeTitle champion

end Store

end FreeSwarm.Objectives
