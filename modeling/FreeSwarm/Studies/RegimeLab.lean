import FreeSwarm.Studies.Sealed

/-!
# Regime Lab runs

A request of the Regime Lab joins a run of its objective that is in progress. Otherwise the columns of the
dataset, the eligible candidates and the rows of the members are waited for behind that check, and the run
is registered behind them.
-/

namespace FreeSwarm.Studies

open FreeSwarm.Foundation

structure FieldSplit where
  field : String
  /-- `n`: the buckets. -/
  n : Nat
  deriving DecidableEq

/-- `kind` of a split. -/
inductive SplitKind where
  | fields
  | module
  deriving DecidableEq

/-- `Split`: how regimes are told apart. -/
structure Split where
  kind : SplitKind := .fields
  fields : List FieldSplit := []
  /-- `module`. -/
  moduleName : String := ""
  smooth : Nat := 360
  windowDays : Nat := 20
  deriving DecidableEq

/-- `LabReq`, as far as the start of a run uses it. -/
structure LabReq where
  split : Option Split
  /-- `members`: no members stand for the default ones. -/
  members : List Nat
  wait : Bool
  deriving DecidableEq

/-- A split that was checked. -/
inductive Spec where
  | module (name : String)
  | fields (fields : List FieldSplit) (smooth windowDays : Nat)
  deriving DecidableEq

inductive LabRefusal where
  | failed
  | noModule
  | noFields
  | sameFields
  | notNumeric (bad : List String)
  | noCandidates
  deriving DecidableEq

def LabRefusal.detail (dataset : String) : LabRefusal → String
  | .failed => ""
  | .noModule => "split.kind='module' needs split.module (a regime module name)"
  | .noFields => "split.kind='fields' needs 1 or 2 fields, e.g. GEX and IntrVol"
  | .sameFields => "split the regime by two DIFFERENT fields"
  | .notNumeric bad => "not numeric columns of " ++ dataset ++ ": " ++ ", ".intercalate bad
  | .noCandidates => "no verified candidates to measure yet"

def defaultFields : List String := ["GEX", "IntrVol"]

def normSpec (split : Split) : Except LabRefusal Spec :=
  match split.kind with
  | .module => if split.moduleName = "" then .error .noModule else .ok (.module split.moduleName)
  | .fields =>
    if split.fields = [] then .error .noFields
    else if ¬(split.fields.map FieldSplit.field).Nodup then .error .sameFields
    else .ok (.fields split.fields split.smooth split.windowDays)

def maxMembers : Nat := 8

/-- Where a request is. The jobs that were registered when it passed the check are counted. -/
inductive LabPhase where
  | columns (since : Nat) (spec : Spec)
  | eligible (since : Nat) (spec : Spec)
  | members (since : Nat) (spec : Spec) (seqs : List Nat)
  | joined (job : Nat)
  | refused (why : LabRefusal)
  | started (job : Nat)
  deriving DecidableEq

/-- A request passed the check with so many jobs registered. -/
def LabPhase.since : LabPhase → Option Nat
  | .columns since _ => some since
  | .eligible since _ => some since
  | .members since _ _ => some since
  | _ => none

variable (Oid : Type)

structure LabRequest where
  oid : Oid
  req : LabReq
  phase : LabPhase
  deriving DecidableEq

/-- `phase` of a job. -/
inductive JobPhase where
  | running
  | done
  | error
  deriving DecidableEq

structure LabJob where
  /-- `objective_id`. -/
  oid : Oid
  spec : Spec
  /-- `total`: its members and the labels. -/
  total : Nat
  phase : JobPhase
  deriving DecidableEq

def LabJob.Runs {Oid : Type} (job : LabJob Oid) : Prop := job.phase = .running

structure Lab where
  /-- `_jobs`: the last job of each objective. -/
  last : Dict Oid Nat
  jobs : List (LabJob Oid)
  requests : List (LabRequest Oid)

inductive LabEvent where
  | ask (oid : Oid) (req : LabReq) (ready : Bool)
  | columns (request : Nat) (numeric : List String)
  | eligible (request : Nat) (seqs : List Nat)
  | members (request : Nat) (rows : List Nat)
  | fail (request : Nat)
  | finish (job : Nat) (complete : Bool)

/-- What is waited for once the columns are fine: the eligible candidates where no members are named. -/
def afterColumns (req : LabReq) (since : Nat) (spec : Spec) : LabPhase :=
  if req.members = [] then .eligible since spec
  else .members since spec (req.members.take maxMembers)

namespace Lab

variable {Oid : Type} [DecidableEq Oid] (s : Lab Oid)

/-- `running`: the last job of the objective, if it is in progress. -/
def running (oid : Oid) : Option Nat :=
  (s.last.get? oid).filter fun job => s.jobs[job]?.any fun job => job.phase = .running

/-- `start`, up to the first thing that is waited for. -/
def ask (oid : Oid) (req : LabReq) (ready : Bool) : LabPhase :=
  if !ready then .refused .failed
  else match s.running oid with
    | some job => .joined job
    | none =>
      match normSpec (req.split.getD { fields := defaultFields.map fun field => ⟨field, 3⟩ }) with
      | .error why => .refused why
      | .ok (.module name) => afterColumns req s.jobs.length (.module name)
      | .ok (.fields fields smooth windowDays) =>
        .columns s.jobs.length (.fields fields smooth windowDays)

def fieldsOf : Spec → List String
  | .module _ => []
  | .fields fields _ _ => fields.map FieldSplit.field

def move (request : Nat) (r : LabRequest Oid) (phase : LabPhase) : Lab Oid :=
  { s with requests := s.requests.set request { r with phase := phase } }

/-- The job is registered. -/
def start (request : Nat) (r : LabRequest Oid) (spec : Spec) (rows : Nat) : Lab Oid where
  last := s.last.set r.oid s.jobs.length
  jobs := s.jobs ++ [⟨r.oid, spec, rows + 1, .running⟩]
  requests := s.requests.set request { r with phase := .started s.jobs.length }

/-- What happens, if it can. -/
def step : LabEvent Oid → Option (Lab Oid)
  | .ask oid req ready => some { s with requests := s.requests ++ [⟨oid, req, s.ask oid req ready⟩] }
  | .columns request numeric =>
    match s.requests[request]? with
    | some ⟨oid, req, .columns since spec⟩ =>
      let bad := (fieldsOf spec).filter fun field => field ∉ numeric
      some (s.move request ⟨oid, req, .columns since spec⟩
        (if bad = [] then afterColumns req since spec else .refused (.notNumeric bad)))
    | _ => none
  | .eligible request seqs =>
    match s.requests[request]? with
    | some ⟨oid, req, .eligible since spec⟩ => some (s.move request ⟨oid, req, .eligible since spec⟩
        (if seqs = [] then .refused .noCandidates else .members since spec (seqs.take maxMembers)))
    | _ => none
  | .members request rows =>
    match s.requests[request]? with
    | some ⟨oid, req, .members since spec seqs⟩ =>
      some (s.start request ⟨oid, req, .members since spec seqs⟩ spec rows.length)
    | _ => none
  | .fail request =>
    match s.requests[request]? with
    | some r => if r.phase.since.isSome then some (s.move request r (.refused .failed)) else none
    | none => none
  | .finish job complete =>
    match s.jobs[job]? with
    | some j =>
      if j.phase = .running then some { s with
        jobs := s.jobs.set job { j with phase := if complete then .done else .error } }
      else none
    | none => none

/-- No two jobs of an objective are in progress. -/
def One : Prop := OneRuns LabJob.oid LabJob.Runs s.jobs

/-- A request whose members are known starts a job only when none that was started since its check is in
progress. -/
def Alone (s : Lab Oid) : LabEvent Oid → Prop
  | .members request _ => ∀ oid req since spec seqs,
      s.requests[request]? = some ⟨oid, req, .members since spec seqs⟩ →
        Clear LabJob.oid LabJob.Runs s.jobs since oid
  | _ => True

/-- No run was asked for. -/
def idle : Lab Oid := ⟨.empty, [], []⟩

variable {s} {s' : Lab Oid}

/-- Every job in progress is the last one of its objective, and a request knows of those that were started
since its check. -/
def Kept (s : Lab Oid) : Prop :=
  Watched LabJob.oid LabJob.Runs s.jobs s.last LabRequest.oid (·.phase.since) s.requests

theorem Kept.one (kept : s.Kept) : s.One := kept.registered.oneRuns

theorem kept_idle : (idle : Lab Oid).Kept := watched_nil

omit [DecidableEq Oid] in
theorem since_afterColumns {req : LabReq} {since since' : Nat} {spec : Spec}
    (has : (afterColumns req since spec).since = some since') : since = since' := by
  rw [afterColumns] at has
  split_ifs at has <;> exact Option.some.inj has

theorem Kept.ask (kept : s.Kept) {oid : Oid} {req : LabReq} {ready : Bool} {since : Nat}
    (passed : (s.ask oid req ready).since = some since) :
    since = s.jobs.length ∧ Since LabJob.oid LabJob.Runs s.jobs since oid := by
  rw [Lab.ask] at passed
  have isReady : ready = true := by
    by_contra not_
    rw [Bool.not_eq_true] at not_
    rw [not_] at passed
    nomatch passed
  rw [isReady, if_neg (by decide)] at passed
  split at passed
  case h_1 => nomatch passed
  case h_2 free =>
    have none_ : ∀ (i : Nat) (job : LabJob Oid),
        s.jobs[i]? = some job → job.oid = oid → ¬job.Runs := by
      intro i job there same goes
      have place := kept.registered i job there goes
      rw [same] at place
      rw [running, place, Option.filter_some, if_pos (by rw [there]; exact decide_eq_true goes)] at free
      nomatch free
    refine ⟨?_, since_of_none none_⟩
    split at passed
    · nomatch passed
    · exact (since_afterColumns passed).symm
    · exact (Option.some.inj passed).symm

theorem Kept.step (kept : s.Kept) {ev : LabEvent Oid} (alone : s.Alone ev)
    (taken : s.step ev = some s') : s'.Kept := by
  cases ev with
  | ask oid req ready =>
    cases taken
    exact Watched.ask kept fun since has => kept.ask has
  | columns request numeric =>
    rw [Lab.step] at taken
    split at taken
    case h_2 => nomatch taken
    case h_1 oid req since spec there =>
      cases taken
      refine Watched.move kept there rfl fun since' has => ?_
      split_ifs at has
      · exact congrArg some (since_afterColumns has)
      · nomatch has
  | eligible request seqs =>
    rw [Lab.step] at taken
    split at taken
    case h_2 => nomatch taken
    case h_1 oid req since spec there =>
      cases taken
      refine Watched.move kept there rfl fun since' has => ?_
      split_ifs at has
      · nomatch has
      · exact has
  | members request rows =>
    rw [Lab.step] at taken
    split at taken
    case h_2 => nomatch taken
    case h_1 oid req since spec seqs there =>
      cases taken
      exact Watched.start kept there rfl rfl (alone oid req since spec seqs there) rfl
  | fail request =>
    rw [Lab.step] at taken
    split at taken
    case h_2 => nomatch taken
    case h_1 r there =>
      obtain ⟨-, rfl⟩ := of_guard taken
      exact Watched.move kept there rfl fun since' has => nomatch has
  | finish job complete =>
    rw [Lab.step] at taken
    split at taken
    case h_2 => nomatch taken
    case h_1 j there =>
      obtain ⟨-, rfl⟩ := of_guard taken
      have ended : ¬({ j with phase := if complete then .done else .error } : LabJob Oid).Runs := by
        cases complete <;> exact fun same => nomatch same
      exact Watched.ends kept (kept.registered.ends ended) ended

/-- A step that does not meet the condition leads to two jobs of an objective. -/
theorem not_one_step {ev : LabEvent Oid} (not_ : ¬s.Alone ev) (taken : s.step ev = some s') :
    ¬s'.One := by
  cases ev with
  | members request rows =>
    rw [Alone] at not_
    push Not at not_
    obtain ⟨oid, req, since, spec, seqs, there, busy⟩ := not_
    rw [Lab.step, there] at taken
    cases taken
    exact not_oneRuns_concat busy rfl
  | _ => exact absurd trivial not_

/-- No two jobs of an objective are in progress in a state of a run exactly if no request starts one while
another, that was started since its check, is in progress. -/
theorem one_iff (run : Run (step : Lab Oid → _ → _) Always) (begins : run.states 0 = idle) :
    (∀ n, (run.states n).One) ↔ ∀ n ev, run.events n = some ev → (run.states n).Alone ev :=
  run.holds_iff Kept One Alone (begins ▸ kept_idle) (fun _ kept => kept.one)
    (fun _ _ _ kept _ alone taken => kept.step alone taken)
    (fun _ _ _ _ _ not_ taken => not_one_step not_ taken)

end Lab

/-! ## Both kinds of study -/

/-- At most one sealed run, and at most one Regime Lab run, of an objective goes on in each state of a run
of theirs exactly if no request starts one while another goes on that was started since its check. -/
theorem oneStudy_iff {Oid : Type} [DecidableEq Oid] (facts : Oid → ObjectiveFacts)
    (runs : Run (Sealed.step facts) Always) (begins : runs.states 0 = Sealed.idle)
    (labs : Run (Lab.step : Lab Oid → _ → _) Always) (begins' : labs.states 0 = Lab.idle) :
    ((∀ n, (runs.states n).One) ↔ ∀ n ev, runs.events n = some ev → (runs.states n).Alone ev) ∧
      ((∀ n, (labs.states n).One) ↔ ∀ n ev, labs.events n = some ev → (labs.states n).Alone ev) :=
  ⟨Sealed.one_iff runs begins, Lab.one_iff labs begins'⟩

def someObjective : ObjectiveFacts := ⟨true, false, true⟩

/-- What is asked for. -/
def someSealedRun : SealedRun := ⟨"", "mcp/rows/data/x/prices", 20, 10⟩

/-- A run is complete before the next one is asked for. -/
def twoSealed : Run (Sealed.step fun _ : Nat => someObjective) Always :=
  .ofEvents [.ask 0 someSealedRun true, .cohort 0 [7, 8], .finish 0 true, .ask 0 someSealedRun true,
    .cohort 1 [9]] .idle
    ⟨⟨[(0, 1)], by decide⟩,
      [⟨0, "", "mcp/rows/data/x/prices", 2, .done⟩, ⟨0, "", "mcp/rows/data/x/prices", 1, .running⟩],
      [⟨0, someSealedRun, .started 0⟩, ⟨0, someSealedRun, .started 1⟩]⟩ rfl

/-- A request joins the job that another one started. -/
def twoLabs : Run (Lab.step : Lab Nat → _ → _) Always :=
  .ofEvents [.ask 0 ⟨none, [3], false⟩ true, .columns 0 ["GEX", "IntrVol"], .members 0 [3],
    .ask 0 ⟨none, [], true⟩ true] .idle
    ⟨⟨[(0, 0)], by decide⟩, [⟨0, .fields [⟨"GEX", 3⟩, ⟨"IntrVol", 3⟩] 360 20, 2, .running⟩],
      [⟨0, ⟨none, [3], false⟩, .started 0⟩, ⟨0, ⟨none, [], true⟩, .joined 0⟩]⟩ rfl

/-- Neither objective has two studies. -/
theorem twoStudies_one : (twoSealed.states 5).One ∧ (twoLabs.states 4).One := by
  have both := oneStudy_iff _ twoSealed rfl twoLabs rfl
  refine ⟨both.1.mpr (fun n ev event => ?_) 5, both.2.mpr (fun n ev event => ?_) 4⟩
  · have inside := (List.getElem?_eq_some_iff.mp event).1
    match n with
    | 0 | 2 | 3 =>
      rw [← Option.some.inj event]
      trivial
    | 1 =>
      rw [← Option.some.inj event]
      intro _ oid req since _ i row there
      nomatch there
    | 4 =>
      rw [← Option.some.inj event]
      intro _ oid req since found i row there later
      cases found
      match i with
      | 0 => exact absurd later (by decide)
      | i + 1 => nomatch there
    | n + 5 => exact absurd inside (by simp)
  · have inside := (List.getElem?_eq_some_iff.mp event).1
    match n with
    | 0 | 1 | 3 =>
      rw [← Option.some.inj event]
      trivial
    | 2 =>
      rw [← Option.some.inj event]
      intro oid req since spec seqs _ i job there
      nomatch there
    | n + 4 => exact absurd inside (by simp)

def bothSealed : Run (Sealed.step fun _ : Nat => someObjective) Always :=
  .ofEvents [.ask 0 someSealedRun true, .ask 0 someSealedRun true, .cohort 0 [7], .cohort 1 [7]] .idle
    ⟨⟨[(0, 1)], by decide⟩,
      [⟨0, "", "mcp/rows/data/x/prices", 1, .running⟩, ⟨0, "", "mcp/rows/data/x/prices", 1, .running⟩],
      [⟨0, someSealedRun, .started 0⟩, ⟨0, someSealedRun, .started 1⟩]⟩ rfl

/-- Two requests for a lab run pass the check before one of them starts its job. -/
def bothLabs : Run (Lab.step : Lab Nat → _ → _) Always :=
  .ofEvents [.ask 0 ⟨none, [3], false⟩ true, .ask 0 ⟨none, [3], false⟩ true,
    .columns 0 ["GEX", "IntrVol"], .columns 1 ["GEX", "IntrVol"], .members 0 [3], .members 1 [3]] .idle
    ⟨⟨[(0, 1)], by decide⟩,
      [⟨0, .fields [⟨"GEX", 3⟩, ⟨"IntrVol", 3⟩] 360 20, 2, .running⟩,
        ⟨0, .fields [⟨"GEX", 3⟩, ⟨"IntrVol", 3⟩] 360 20, 2, .running⟩],
      [⟨0, ⟨none, [3], false⟩, .started 0⟩, ⟨0, ⟨none, [3], false⟩, .started 1⟩]⟩ rfl

/-- Two runs of the objective go on, and two jobs of it. -/
theorem both_go_on : ¬(∀ n, (bothSealed.states n).One) ∧ ¬∀ n, (bothLabs.states n).One := by
  constructor
  · intro all
    exact absurd (all 4 0 1 _ _ rfl rfl rfl rfl rfl) (by decide)
  · intro all
    exact absurd (all 6 0 1 _ _ rfl rfl rfl rfl rfl) (by decide)

end FreeSwarm.Studies
