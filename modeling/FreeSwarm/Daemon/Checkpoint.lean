import FreeSwarm.Foundation.Machine

/-!
# Checkpoint conversions

The manager of checkpoint conversions: one job, whose slot is reserved under the lock and whose process
is spawned outside of it. Each critical section is one step, and so is each thing that the processes
and the threads do on their own.
-/

namespace FreeSwarm.Daemon

open FreeSwarm.Foundation

/-! ## The manager -/

inductive JobState where
  | running
  | done
  | failed
  | cancelled
  deriving DecidableEq

variable (Id : Type)

structure Job where
  id : Id
  pid : Int
  state : JobState
  exitCode : Option Int
  owner : Nat

/-- How far a call that has reserved the slot has come. -/
inductive StartPhase where
  | spawning
  | spawned
  | recorded
  | failed
  | broken
  deriving DecidableEq

inductive MonitorPhase where
  | off
  | waiting
  | reaping
  | done
  deriving DecidableEq

/-- How far the terminate sequence of a process has come. -/
inductive TerminatePhase where
  | off
  | begun
  | asked
  | done
  deriving DecidableEq

/-- A call that has reserved the slot, with its process. -/
structure StartCall where
  id : Id
  phase : StartPhase
  pid : Int
  exit : Option Int
  reaped : Bool
  monitor : MonitorPhase
  terminate : TerminatePhase
  killed : Bool
  cancelled : Bool

def StartCall.Alive {Id : Type} (call : StartCall Id) : Prop :=
  (call.phase = .spawned ∨ call.phase = .recorded ∨ call.phase = .broken) ∧ call.exit = none

/-- A call is between its two critical sections. -/
def StartCall.InWindow {Id : Type} (call : StartCall Id) : Prop :=
  call.phase = .spawning ∨ call.phase = .spawned

def StartCall.reserve {Id : Type} (id : Id) : StartCall Id :=
  { id := id, phase := .spawning, pid := -1, exit := none, reaped := false, monitor := .off
    terminate := .off, killed := false, cancelled := false }

/-- The manager, and the calls that have reserved the slot so far. -/
structure CheckpointManager where
  job : Option (Job Id)
  child : Option Nat
  calls : List (StartCall Id)

/-- What a client is told about a start. -/
inductive StartReply where
  | idempotent (pid : Option Int)
  | alreadyRunning (id : Id)
  | stillTerminating
  | reserved
  deriving DecidableEq

/-- Something that happens: a client calls, a thread enters its next critical section, or a process
does something. Numbers are those of the calls that have reserved the slot. -/
inductive CheckpointEvent where
  | start (id : Id)
  | spawn (n : Nat) (pid : Int)
  | spawnFails (n : Nat)
  | record (n : Nat)
  | exit (n : Nat) (code : Int)
  | reap (n : Nat)
  | book (n : Nat)
  | cancel (id : Id)
  | terminate (n : Nat)
  | escalate (n : Nat)

namespace CheckpointManager
variable {Id : Type} [DecidableEq Id]

/-- Nothing was started. -/
def fresh : CheckpointManager Id := { job := none, child := none, calls := [] }

def modify (n : Nat) (f : StartCall Id → StartCall Id) (s : CheckpointManager Id) :
    CheckpointManager Id := { s with calls := s.calls.modify n f }

variable (id : Id) (s : CheckpointManager Id)

def isReaped (n : Nat) : Bool := s.calls[n]?.any (·.reaped)

/-- A start that no running job is in the way of. The slot is reserved unless the process of the job
before is still terminating. -/
def admitStart : StartReply Id × CheckpointManager Id :=
  if s.child.any fun n => !s.isReaped n then (.stillTerminating, s)
  else
    (.reserved,
      { job := some { id := id, pid := -1, state := .running, exitCode := none
                      owner := s.calls.length }
        child := none, calls := s.calls ++ [.reserve id] })

/-- The first critical section of a start. -/
def start : StartReply Id × CheckpointManager Id :=
  match s.job with
  | none => s.admitStart id
  | some job =>
    if job.state = .running then
      if job.id = id then (.idempotent (if 0 < job.pid then some job.pid else none), s)
      else (.alreadyRunning job.id, s)
    else s.admitStart id

/-- The slot is released when the job of a failed spawn is still recorded. -/
def release : CheckpointManager Id :=
  match s.job with
  | none => s
  | some job => if job.id = id then { s with job := none } else s

def beginTerminate (n : Nat) (s : CheckpointManager Id) : CheckpointManager Id :=
  s.modify n fun call => if call.terminate = .off then { call with terminate := .begun } else call

/-- The second critical section of a start: the process is recorded in the job that is there, and the
terminate sequence begins when that job was cancelled meanwhile. -/
def record (n : Nat) (pid : Int) (s : CheckpointManager Id) : CheckpointManager Id :=
  match s.job with
  | none => { s with child := some n }.modify n fun call => { call with phase := .broken }
  | some job =>
    let s := { s with child := some n, job := some { job with pid := pid } }.modify n fun call =>
      { call with phase := .recorded, monitor := .waiting }
    if job.state = .cancelled then s.beginTerminate n else s

/-- The critical section of a monitor: the exit is recorded in the job that has the identifier. -/
def book (code : Option Int) (s : CheckpointManager Id) : CheckpointManager Id :=
  match s.job with
  | none => s
  | some job =>
    if job.id = id then
      { s with job := some { job with
          state := if job.state = .cancelled then .cancelled
            else if code = some 0 then .done else .failed
          exitCode := code } }
    else s

/-- A cancel. The terminate sequence begins when the process is recorded. -/
def cancel : Bool × CheckpointManager Id :=
  match s.job with
  | none => (false, s)
  | some job =>
    if job.id ≠ id ∨ job.state ≠ .running then (false, s)
    else
      let s' := { s with job := some { job with state := .cancelled } }.modify job.owner
        fun call => { call with cancelled := true }
      match s.child with
      | some n => (true, if 0 < job.pid then s'.beginTerminate n else s')
      | none => (true, s')

/-- What an event does, when it can happen. -/
def step : CheckpointEvent Id → Option (CheckpointManager Id)
  | .start id => some (s.start id).2
  | .spawn n pid => do
    let call ← s.calls[n]?
    if call.phase = .spawning ∧ 0 < pid then
      some (s.modify n fun call => { call with phase := .spawned, pid := pid })
    else none
  | .spawnFails n => do
    let call ← s.calls[n]?
    if call.phase = .spawning then
      some ((s.modify n fun call => { call with phase := .failed }).release call.id)
    else none
  | .record n => do
    let call ← s.calls[n]?
    if call.phase = .spawned then some (s.record n call.pid) else none
  | .exit n code => do
    let call ← s.calls[n]?
    if (call.phase = .spawned ∨ call.phase = .recorded ∨ call.phase = .broken) ∧ call.exit = none then
      some (s.modify n fun call => { call with exit := some code })
    else none
  | .reap n => do
    let call ← s.calls[n]?
    if call.monitor = .waiting ∧ call.exit.isSome then
      some (s.modify n fun call => { call with monitor := .reaping, reaped := true })
    else none
  | .book n => do
    let call ← s.calls[n]?
    if call.monitor = .reaping then
      some ((s.modify n fun call => { call with monitor := .done }).book call.id call.exit)
    else none
  | .cancel id => some (s.cancel id).2
  | .terminate n => do
    let call ← s.calls[n]?
    if call.terminate = .begun then some (s.modify n fun call => { call with terminate := .asked })
    else none
  | .escalate n => do
    let call ← s.calls[n]?
    if call.terminate = .asked then
      some (s.modify n fun call => { call with terminate := .done, killed := !call.reaped })
    else none

abbrev Reachable (meets : CheckpointManager Id → CheckpointEvent Id → Prop)
    (s : CheckpointManager Id) : Prop := Reaches step meets fresh s

end CheckpointManager

end FreeSwarm.Daemon
