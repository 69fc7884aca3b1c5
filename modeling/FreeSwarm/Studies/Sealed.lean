import FreeSwarm.Foundation.FairRun
import FreeSwarm.Foundation.Registry

/-!
# Sealed runs

The operator opens the seal of an objective: a cohort of candidates is replayed on rows that no agent saw.
A request is refused while a run of the objective is going. The task's sources and the cohort are waited
for behind that check, and the run is registered behind them.
-/

namespace FreeSwarm.Studies

open FreeSwarm.Foundation

/-- An objective, as far as a sealed run asks for it. -/
structure ObjectiveFacts where
  /-- `_higher`: its score is no error measure. -/
  higher : Bool
  isTask : Bool
  replayable : Bool

/-- `SealedRun`: what the operator asks for. -/
structure SealedRun where
  source : String
  rowsPath : String
  top : Nat
  spread : Nat
  deriving DecidableEq

inductive SealedRefusal where
  | errorMeasure
  | going
  | source (names : List String)
  | notReplayable
  | failed
  | noCandidate
  deriving DecidableEq

def SealedRefusal.detail : SealedRefusal → String
  | .errorMeasure => "the sealed test compares Sharpe ratios: this objective's score is an error measure"
  | .going => "a sealed run of this objective is already going"
  | .source names => "source must be another of the task's sources: " ++ toString names
  | .notReplayable => "only an objective with positions or a task server can be replayed"
  | .failed => ""
  | .noCandidate => "no ranked candidate to replay"

/-- Where a request is. The runs that were registered when it passed the check are counted. -/
inductive SealedPhase where
  | sources (since : Nat)
  | cohort (since : Nat)
  | refused (why : SealedRefusal)
  | started (run : Nat)
  deriving DecidableEq

/-- A request passed the check with so many runs registered. -/
def SealedPhase.since : SealedPhase → Option Nat
  | .sources since => some since
  | .cohort since => some since
  | _ => none

variable (Oid : Type)

structure SealedRequest where
  oid : Oid
  req : SealedRun
  phase : SealedPhase
  deriving DecidableEq

/-- `state` of a run. -/
inductive SealedState where
  | running
  | done
  | failed
  deriving DecidableEq

/-- A row of `sealed_runs`. -/
structure SealedRow where
  /-- `objective_id`. -/
  oid : Oid
  source : String
  rowsPath : String
  /-- `total`: the size of the cohort. -/
  total : Nat
  state : SealedState
  deriving DecidableEq

/-- The run stores results. -/
def SealedRow.Runs {Oid : Type} (row : SealedRow Oid) : Prop := row.state = .running

structure Sealed where
  /-- `_live`: the runs that are going. -/
  live : Dict Oid Nat
  rows : List (SealedRow Oid)
  requests : List (SealedRequest Oid)

inductive SealedEvent where
  | ask (oid : Oid) (req : SealedRun) (rowsThere : Bool)
  | sources (request : Nat) (names : List String)
  | cohort (request : Nat) (cands : List Nat)
  | fail (request : Nat)
  | finish (run : Nat) (complete : Bool)

namespace Sealed

variable {Oid : Type} [DecidableEq Oid] (facts : Oid → ObjectiveFacts) (s : Sealed Oid)

/-- `start_sealed`, up to the first thing that is waited for. -/
def ask (oid : Oid) (rowsThere : Bool) : SealedPhase :=
  if !(facts oid).higher then .refused .errorMeasure
  else if (s.live.get? oid).isSome then .refused .going
  else if (facts oid).isTask then .sources s.rows.length
  else if !(facts oid).replayable then .refused .notReplayable
  else if !rowsThere then .refused .failed
  else .cohort s.rows.length

def move (request : Nat) (r : SealedRequest Oid) (phase : SealedPhase) : Sealed Oid :=
  { s with requests := s.requests.set request { r with phase := phase } }

/-- The row of a run is inserted, and the run is registered. -/
def start (request : Nat) (r : SealedRequest Oid) (total : Nat) : Sealed Oid where
  live := s.live.set r.oid s.rows.length
  rows := s.rows ++ [⟨r.oid, r.req.source, r.req.rowsPath, total, .running⟩]
  requests := s.requests.set request { r with phase := .started s.rows.length }

/-- What happens, if it can. -/
def step : SealedEvent Oid → Option (Sealed Oid)
  | .ask oid req rowsThere =>
    some { s with requests := s.requests ++ [⟨oid, req, s.ask facts oid rowsThere⟩] }
  | .sources request names =>
    match s.requests[request]? with
    | some ⟨oid, req, .sources since⟩ => some (s.move request ⟨oid, req, .sources since⟩
        (if req.source ∈ names then .cohort since else .refused (.source names)))
    | _ => none
  | .cohort request cands =>
    match s.requests[request]? with
    | some ⟨oid, req, .cohort since⟩ =>
      if cands = [] then some (s.move request ⟨oid, req, .cohort since⟩ (.refused .noCandidate))
      else some (s.start request ⟨oid, req, .cohort since⟩ cands.length)
    | _ => none
  | .fail request =>
    match s.requests[request]? with
    | some r => if r.phase.since.isSome then some (s.move request r (.refused .failed)) else none
    | none => none
  | .finish run complete =>
    match s.rows[run]? with
    | some row =>
      if row.state = .running then some { s with
        live := s.live.pop row.oid
        rows := s.rows.set run { row with state := if complete then .done else .failed } }
      else none
    | none => none

/-- No two runs of an objective are going. -/
def One : Prop := OneRuns SealedRow.oid SealedRow.Runs s.rows

/-- A request whose cohort is known starts a run only when none that was started since its check is
going. -/
def Alone (s : Sealed Oid) : SealedEvent Oid → Prop
  | .cohort request cands => cands ≠ [] → ∀ oid req since,
      s.requests[request]? = some ⟨oid, req, .cohort since⟩ →
        Clear SealedRow.oid SealedRow.Runs s.rows since oid
  | _ => True

/-- No run was asked for. -/
def idle : Sealed Oid := ⟨.empty, [], []⟩

variable {facts s} {s' : Sealed Oid}

/-- Every run that is going is registered, and a request knows of those that were started since its
check. -/
def Kept (s : Sealed Oid) : Prop :=
  Watched SealedRow.oid SealedRow.Runs s.rows s.live SealedRequest.oid (·.phase.since) s.requests

theorem Kept.one (kept : s.Kept) : s.One := kept.registered.oneRuns

theorem kept_idle : (idle : Sealed Oid).Kept := watched_nil

/-- A request passes the check only if its objective has no run that is going, and counts all of them. -/
theorem Kept.ask (kept : s.Kept) {oid : Oid} {rowsThere : Bool} {since : Nat}
    (passed : (s.ask facts oid rowsThere).since = some since) :
    since = s.rows.length ∧ Since SealedRow.oid SealedRow.Runs s.rows since oid := by
  have none_ (free : ¬(s.live.get? oid).isSome) : ∀ (i : Nat) (row : SealedRow Oid),
      s.rows[i]? = some row → row.oid = oid → ¬row.Runs := by
    intro i row there same goes
    have place := kept.registered i row there goes
    rw [same] at place
    rw [place] at free
    exact free rfl
  rw [Sealed.ask] at passed
  split_ifs at passed with error going task positions missing
  · nomatch passed
  · nomatch passed
  · exact ⟨(Option.some.inj passed).symm, since_of_none (none_ going)⟩
  · nomatch passed
  · nomatch passed
  · exact ⟨(Option.some.inj passed).symm, since_of_none (none_ going)⟩

theorem Kept.step (kept : s.Kept) {ev : SealedEvent Oid} (alone : s.Alone ev)
    (taken : s.step facts ev = some s') : s'.Kept := by
  cases ev with
  | ask oid req rowsThere =>
    cases taken
    exact Watched.ask kept fun since has => kept.ask has
  | sources request names =>
    rw [Sealed.step] at taken
    split at taken
    case h_2 => nomatch taken
    case h_1 oid req since there =>
      cases taken
      refine Watched.move kept there rfl fun since' has => ?_
      split_ifs at has
      · exact has
      · nomatch has
  | cohort request cands =>
    rw [Sealed.step] at taken
    split at taken
    case h_2 => nomatch taken
    case h_1 oid req since there =>
      split_ifs at taken with empty
      · cases taken
        exact Watched.move kept there rfl fun since' has => nomatch has
      · cases taken
        exact Watched.start kept there rfl rfl (alone empty oid req since there) rfl
  | fail request =>
    rw [Sealed.step] at taken
    split at taken
    case h_2 => nomatch taken
    case h_1 r there =>
      obtain ⟨-, rfl⟩ := of_guard taken
      exact Watched.move kept there rfl fun since' has => nomatch has
  | finish run complete =>
    rw [Sealed.step] at taken
    split at taken
    case h_2 => nomatch taken
    case h_1 row there =>
      obtain ⟨goes, rfl⟩ := of_guard taken
      have ended : ¬({ row with state := if complete then .done else .failed } : SealedRow Oid).Runs := by
        cases complete <;> exact fun same => nomatch same
      exact Watched.ends kept (kept.registered.pops there goes ended) ended

/-- A step that does not meet the condition leads to two runs of an objective. -/
theorem not_one_step {ev : SealedEvent Oid} (not_ : ¬s.Alone ev)
    (taken : s.step facts ev = some s') : ¬s'.One := by
  cases ev with
  | cohort request cands =>
    rw [Alone] at not_
    push Not at not_
    obtain ⟨some_, oid, req, since, there, busy⟩ := not_
    rw [Sealed.step, there] at taken
    dsimp only at taken
    rw [if_neg some_] at taken
    cases taken
    exact not_oneRuns_concat busy rfl
  | _ => exact absurd trivial not_

/-- No two sealed runs of an objective are going in a state of a run exactly if no request starts one while
another, that was started since its check, is going. -/
theorem one_iff (run : Run (Sealed.step facts) Always) (begins : run.states 0 = idle) :
    (∀ n, (run.states n).One) ↔ ∀ n ev, run.events n = some ev → (run.states n).Alone ev :=
  run.holds_iff Kept One Alone (begins ▸ kept_idle) (fun _ kept => kept.one)
    (fun _ _ _ kept _ alone taken => kept.step alone taken)
    (fun _ _ _ _ _ not_ taken => not_one_step not_ taken)

end Sealed
end FreeSwarm.Studies
