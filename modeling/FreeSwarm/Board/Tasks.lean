import FreeSwarm.Foundation.Table
import FreeSwarm.Foundation.Text
import Mathlib.Algebra.Order.Ring.Rat
import Mathlib.Data.List.MinMax

/-!
# The tasks of the message board

The agents of a swarm share a table of tasks. An agent claims the oldest open task under a lease
and completes it later; a claim whose lease has run out is returned to the queue by the next request
that reads the table. Each request runs under the lock of the database, so requests happen one after
the other, but the clock readings they use are taken at different moments.
-/

namespace FreeSwarm.Board

open FreeSwarm.Foundation

abbrev Text := List Char

/-- A reading of the clock, in seconds. -/
abbrev Time := ℚ

/-- The capability that a task asks for. -/
inductive Tier where
  | auto
  | small
  | mid
  | hard
  deriving DecidableEq

inductive TaskStatus where
  | open_
  | claimed
  | done
  | failed
  deriving DecidableEq

def TaskStatus.Finished (status : TaskStatus) : Prop := status = .done ∨ status = .failed

instance TaskStatus.decidableFinished (status : TaskStatus) : Decidable status.Finished :=
  inferInstanceAs (Decidable (_ ∨ _))

structure Task where
  id : Text
  title : Text
  description : Text
  tier : Tier
  status : TaskStatus := .open_
  parentId : Option Text
  claimedBy : Option Text := none
  leaseUntil : Option Time := none
  result : Option Text := none
  createdAt : Time
  updatedAt : Time
  attempts : Nat := 0
  sessionId : Text
  projectId : Text
  deriving DecidableEq

structure CreateTask where
  title : Text
  description : Text
  tier : Tier
  parentId : Option Text

/-- A request for a task, or for more time. -/
structure ClaimTask where
  agentId : Text
  leaseS : Nat
  tier : Option Tier

structure CompleteTask where
  agentId : Text
  failed : Bool
  result : Text

def CompleteTask.status (req : CompleteTask) : TaskStatus := if req.failed then .failed else .done

variable (req : ClaimTask) (scope : Text) (now : Time) (tasks : List Task) (taskId : Text)

/-- The lease of a claim has run out. -/
def Task.Expired (t : Task) : Prop :=
  t.status = .claimed ∧ ∃ until_ ∈ t.leaseUntil, until_ < now

instance Task.decidableExpired (now : Time) : DecidablePred (Task.Expired now) :=
  fun _ => inferInstanceAs (Decidable (_ ∧ _))

def Task.requeue (t : Task) : Task :=
  { t with status := .open_, claimedBy := none, leaseUntil := none, updatedAt := now }

/-- The timed-out claims return to the queue. -/
def expireLeases : List Task :=
  updateWhere (Task.Expired now) (Task.requeue now) tasks

/-- A new task, unless its identity is taken. -/
def createTask (req : CreateTask) (projectId sessionId : Text) (now : Time)
    (tasks : List Task) : Option (List Task) :=
  if taskId ∈ tasks.map Task.id then none
  else some (tasks ++ [{
    id := taskId, title := req.title, description := req.description, tier := req.tier,
    parentId := req.parentId, createdAt := now, updatedAt := now, sessionId := sessionId,
    projectId := projectId }])

def Task.Claimable (tier : Option Tier) (t : Task) : Prop :=
  t.status = .open_ ∧ t.projectId = scope ∧
    (tier = none ∨ tier = some .auto ∨ tier = some t.tier ∨ t.tier = .auto)

instance Task.decidableClaimable (scope : Text) (tier : Option Tier) :
    DecidablePred (Task.Claimable scope tier) :=
  fun _ => inferInstanceAs (Decidable (_ ∧ _ ∧ _))

/-- The oldest task that the agent may claim, the one inserted first among those of the same age. -/
def oldestClaimable (tier : Option Tier) (tasks : List Task) : Option Task :=
  (tasks.filter fun t => t.Claimable scope tier).argmin Task.createdAt

def Task.claim (t : Task) : Task :=
  { t with
    status := .claimed, claimedBy := some req.agentId, leaseUntil := some (now + req.leaseS),
    updatedAt := now, attempts := t.attempts + 1 }

def claimRow (rowId : Text) (req : ClaimTask) (now : Time) (tasks : List Task) : List Task :=
  updateWhere (fun t => t.id = rowId ∧ t.status = .open_) (Task.claim req now) tasks

def claimOldest :
    List Task × Option Task :=
  match oldestClaimable scope req.tier tasks with
  | none => (tasks, none)
  | some row =>
    (claimRow row.id req now tasks,
      if rowCount (fun t => t.id = row.id ∧ t.status = .open_) tasks = 0 then none
      else (claimRow row.id req now tasks).find? fun t => t.id = row.id)

/-- The timed-out claims return to the queue, and the agent claims the oldest task. The reading
`now` is made before the lock is taken, and `expiry` under it. -/
def claimNext (now expiry : Time) (tasks : List Task) :
    List Task × Option Task :=
  claimOldest req scope now (expireLeases expiry tasks)

def Task.complete (req : CompleteTask) (now : Time) (t : Task) : Task :=
  { t with status := req.status, result := some req.result, leaseUntil := none, updatedAt := now }

def completeTask (req : CompleteTask) (now : Time) (tasks : List Task) :
    List Task × Bool :=
  (updateWhere (fun t => t.id = taskId ∧ t.claimedBy = some req.agentId)
      (Task.complete req now) tasks,
    rowCount (fun t => t.id = taskId ∧ t.claimedBy = some req.agentId) tasks ≠ 0)

/-- The task with a later end of its lease. -/
def Task.extend (now now' : Time) (t : Task) : Task :=
  { t with leaseUntil := some (now + req.leaseS), updatedAt := now' }

def extendLease (req : ClaimTask) (now now' : Time) (tasks : List Task) :
    List Task × Bool :=
  (updateWhere (fun t => t.id = taskId ∧ t.claimedBy = some req.agentId ∧ t.status = .claimed)
      (Task.extend req now now') tasks,
    rowCount (fun t => t.id = taskId ∧ t.claimedBy = some req.agentId ∧ t.status = .claimed)
      tasks ≠ 0)

/-! ## Requests -/

/-- A request, with the clock readings that its handler makes. -/
inductive Request where
  | createTask (taskId : Text) (req : CreateTask) (projectId sessionId : Text) (now : Time)
  | claimNext (req : ClaimTask) (scope : Text) (now expiry : Time)
  | completeTask (taskId : Text) (req : CompleteTask) (now : Time)
  | extendLease (taskId : Text) (req : ClaimTask) (now now' : Time)
  | readTasks (expiry : Time)

/-- What a handler answers. -/
inductive Response where
  | ok
  | refused
  | task (task : Option Task)

/-- The table after a request, and the answer. -/
def handle : Request → List Task × Response
  | .createTask taskId req projectId sessionId now =>
    match createTask taskId req projectId sessionId now tasks with
    | some tasks => (tasks, .ok)
    | none => (tasks, .refused)
  | .claimNext req scope now expiry =>
    let (tasks, claimed) := claimNext req scope now expiry tasks
    (tasks, .task claimed)
  | .completeTask taskId req now =>
    let (tasks, done) := completeTask taskId req now tasks
    (tasks, if done then .ok else .refused)
  | .extendLease taskId req now now' =>
    let (tasks, extended) := extendLease taskId req now now' tasks
    (tasks, if extended then .ok else .refused)
  | .readTasks expiry => (expireLeases expiry tasks, .ok)

def tasksAfter (requests : List Request) : List Task :=
  requests.foldl (fun tasks request => (handle tasks request).1) []

end FreeSwarm.Board
