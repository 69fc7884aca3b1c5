import FreeSwarm.Foundation.Machine

/-!
# The supervisor of the engine

The manager of the one engine: starts, stops, switches and the shutdown are transactions under the
lifecycle lock, each made of critical sections under the condition's lock, while the monitor of each
engine and the threads that restart a crashed one go on between them. Each critical section is one step,
and so is each thing that the processes and the threads do on their own.
-/

namespace FreeSwarm.Daemon

open FreeSwarm.Foundation

/-! ## The state -/

/-- Who launched an engine. -/
inductive Origin where
  | client
  | restart (trigger : Nat)
  deriving DecidableEq

/-- What the monitor of an engine does. -/
inductive WatchPhase where
  | off
  | waiting
  | sampled (wasStopping isCurrent : Bool)
  | cleared (wasStopping isCurrent : Bool)
  | reaped (wasStopping isCurrent : Bool)
  | restarting
  | done
  deriving DecidableEq

variable (Config : Type)

structure Engine where
  pid : Int
  starttime : Option Int
  config : Config
  origin : Origin
  launched : Nat
  exited : Bool
  monitor : WatchPhase
  crashed : Option Nat
  reaps : Nat

/-- A process, by its number and the time of its start. -/
abbrev Identity := Int × Option Int

def Engine.identity {Config : Type} (e : Engine Config) : Identity := (e.pid, e.starttime)

/-- An engine that is there, with no monitor so far. -/
def Engine.spawned {Config : Type} (pid : Int) (starttime : Option Int) (config : Config)
    (origin : Origin) (launched : Nat) : Engine Config :=
  { pid := pid, starttime := starttime, config := config, origin := origin, launched := launched
    exited := false, monitor := .off, crashed := none, reaps := 0 }

inductive StopGoal where
  | stop
  | shutdown
  | switch (config : Config)

/-- Where the transaction is that holds the lifecycle lock. -/
inductive Holder where
  | prepare (n : Nat) (goal : StopGoal Config)
  | signal (n : Nat) (goal : StopGoal Config)
  | asked (n : Nat) (goal : StopGoal Config)
  | killed (n : Nat) (goal : StopGoal Config)
  | resume (config : Config)
  | spawn (config : Config) (origin : Origin)
  | record (n : Nat)
  | watch (n : Nat)

/-- A thread that will restart an engine. -/
structure Restart where
  config : Config
  trigger : Nat

/-- The manager, with the engines that it has launched so far. -/
structure ServeManager where
  autoRestart : Bool
  child : Option Nat
  config : Option Config
  stopping : Bool
  starting : Bool
  stopRequested : Bool
  shutdownRequested : Bool
  holder : Option (Holder Config)
  restarts : List (Restart Config)
  engines : List (Engine Config)
  commands : Nat
  stopped : Bool
  closed : Bool

/-- What a start comes to at its first critical section. -/
inductive StartOutcome where
  | idempotent (pid : Option Int)
  | conflict
  | disabled
  | aborted
  | spawning
  deriving DecidableEq

/-- Something that happens: a client calls, the transaction under the lifecycle lock goes on, a process
exits, or a thread goes on. Numbers are those of the engines. -/
inductive ServeEvent where
  | start (config : Config)
  | stop
  | shutdown
  | switch (config : Config)
  | prepared
  | prepareFails
  | terminate
  | kill
  | stopReturns
  | signalFails
  | resume
  | spawn (pid : Int) (starttime : Option Int)
  | spawnFails
  | record
  | watch
  | persistFails
  | exit (n : Nat)
  | sample (n : Nat)
  | accountingFails (n : Nat)
  | clear (n : Nat)
  | reap (n : Nat)
  | decide (n : Nat)
  | capture (n : Nat)
  | restart (k : Nat)

namespace ServeManager
variable {Config : Type}

/-! ## The transactions -/

/-- The daemon has come up. A running engine of the daemon before it is adopted. -/
def boot (autoRestart : Bool) (adopted : Option (Config × Int × Option Int)) : ServeManager Config :=
  { autoRestart := autoRestart, child := adopted.map fun _ => 0
    config := adopted.map fun found => found.1, stopping := false, starting := false
    stopRequested := false, shutdownRequested := false, holder := none, restarts := []
    engines := adopted.toList.map fun found =>
      { Engine.spawned found.2.1 found.2.2 found.1 .client 0 with monitor := .waiting }
    commands := 0, stopped := false, closed := false }

def modify (n : Nat) (f : Engine Config → Engine Config) (s : ServeManager Config) :
    ServeManager Config := { s with engines := s.engines.modify n f }

variable (s : ServeManager Config)

/-- The lock is free, and no spawn is in flight. -/
def idle : Bool := s.holder.isNone && !s.starting

def isReaped (n : Nat) : Bool := s.engines[n]?.any (0 < ·.reaps)

/-- The turn of a start's loop in which no spawn is in flight. -/
def enter [DecidableEq Config] (config : Config) (origin : Origin) (s : ServeManager Config) :
    StartOutcome × ServeManager Config :=
  if s.child.isSome ∧ s.stopping = false then
    if s.config = some config then
      (.idempotent (s.child.bind fun n => s.engines[n]?.map (·.pid)), s)
    else (.conflict, s)
  else if origin ≠ .client ∧ s.stopRequested then (.aborted, s)
  else (.spawning, { s with starting := true, holder := some (.spawn config origin) })

/-- The first critical section of a client's start. It clears the request to stop. -/
def start [DecidableEq Config] (config : Config) (s : ServeManager Config) :
    StartOutcome × ServeManager Config :=
  if s.shutdownRequested then (.disabled, s)
  else
    ServeManager.enter config .client
      { s with stopRequested := false, stopped := false, commands := s.commands + 1 }

/-- The first critical section of a restart. -/
def autoStart [DecidableEq Config] (config : Config) (trigger : Nat) (s : ServeManager Config) :
    StartOutcome × ServeManager Config :=
  if s.shutdownRequested ∨ s.stopRequested then (.aborted, s) else s.enter config (.restart trigger)

def stopReturns : StopGoal Config → ServeManager Config
  | .stop => { s with holder := none, stopped := true }
  | .shutdown => { s with holder := none, stopped := true, closed := true }
  | .switch config => { s with holder := some (.resume config) }

/-- A stop has failed. The engine stays the child, and a shutdown is taken back. -/
def stopRaises (n : Nat) (s : ServeManager Config) (goal : StopGoal Config) : ServeManager Config :=
  let s := { s with holder := none, stopping := if s.child = some n then false else s.stopping }
  match goal with
  | .shutdown => { s with shutdownRequested := false }
  | _ => s

/-- The first critical section of a stop. -/
def stop (goal : StopGoal Config) (s : ServeManager Config) : ServeManager Config :=
  let s := { s with stopRequested := true, commands := s.commands + 1 }
  match s.child with
  | none => s.stopReturns goal
  | some n => { s with stopping := true, holder := some (.prepare n goal) }

/-- What an event does, when it can happen. -/
def step [DecidableEq Config] (s : ServeManager Config) :
    ServeEvent Config → Option (ServeManager Config)
  | .start config => if s.idle then some (s.start config).2 else none
  | .stop => if s.idle then some (s.stop .stop) else none
  | .shutdown =>
    if s.idle then some (ServeManager.stop .shutdown { s with shutdownRequested := true }) else none
  | .switch config => if s.idle then some (s.stop (.switch config)) else none
  | .prepared =>
    match s.holder with
    | some (.prepare n goal) => some { s with holder := some (.signal n goal) }
    | _ => none
  | .prepareFails =>
    match s.holder with
    | some (.prepare n goal) => some (s.stopRaises n goal)
    | _ => none
  | .terminate =>
    match s.holder with
    | some (.signal n goal) =>
      if s.isReaped n then none else some { s with holder := some (.asked n goal) }
    | _ => none
  | .kill =>
    match s.holder with
    | some (.asked n goal) =>
      if s.isReaped n then none else some { s with holder := some (.killed n goal) }
    | _ => none
  | .stopReturns =>
    match s.holder with
    | some (.signal n goal) | some (.asked n goal) | some (.killed n goal) =>
      if s.isReaped n then some (s.stopReturns goal) else none
    | _ => none
  | .signalFails =>
    match s.holder with
    | some (.signal n goal) | some (.asked n goal) | some (.killed n goal) =>
      some (s.stopRaises n goal)
    | _ => none
  | .resume =>
    match s.holder with
    | some (.resume config) =>
      if s.starting then none else some (ServeManager.start config { s with holder := none }).2
    | _ => none
  | .spawn pid starttime =>
    match s.holder with
    | some (.spawn config origin) =>
      some { s with
        holder := some (.record s.engines.length)
        engines := s.engines ++ [Engine.spawned pid starttime config origin s.commands] }
    | _ => none
  | .spawnFails =>
    match s.holder with
    | some (.spawn _ _) => some { s with holder := none, starting := false }
    | _ => none
  | .record =>
    match s.holder with
    | some (.record n) =>
      some { s with
        child := some n, config := s.engines[n]?.map (·.config), stopping := false
        starting := false, holder := some (.watch n) }
    | _ => none
  | .watch =>
    match s.holder with
    | some (.watch n) =>
      some (ServeManager.modify n (fun e => { e with monitor := .waiting }) { s with holder := none })
    | _ => none
  | .persistFails =>
    match s.holder with
    | some (.watch _) => some { s with holder := none }
    | _ => none
  | .exit n => do
    let e ← s.engines[n]?
    if e.exited = false then some (s.modify n fun e => { e with exited := true }) else none
  | .sample n => do
    let e ← s.engines[n]?
    if e.monitor = .waiting ∧ e.exited = true then
      some (s.modify n fun e => { e with
        monitor := .sampled (s.stopping || s.stopRequested) (s.child = some n) })
    else none
  | .accountingFails n => do
    let e ← s.engines[n]?
    match e.monitor with
    | .sampled _ true => some { s with stopRequested := true }
    | _ => none
  | .clear n => do
    let e ← s.engines[n]?
    match e.monitor with
    | .sampled wasStopping _ =>
      if s.child = some n then
        some (ServeManager.modify n (fun e => { e with
          monitor := .cleared wasStopping true
          crashed := if wasStopping then none else some s.commands })
          { s with child := none, stopping := false })
      else some (s.modify n fun e => { e with monitor := .cleared wasStopping false })
    | _ => none
  | .reap n => do
    let e ← s.engines[n]?
    match e.monitor with
    | .cleared wasStopping isCurrent =>
      some (s.modify n fun e => { e with
        monitor := .reaped wasStopping isCurrent, reaps := e.reaps + 1 })
    | _ => none
  | .decide n => do
    let e ← s.engines[n]?
    match e.monitor with
    | .reaped wasStopping isCurrent =>
      some (s.modify n fun e => { e with
        monitor := if isCurrent && !wasStopping && s.autoRestart && !s.stopRequested then .restarting
          else .done })
    | _ => none
  | .capture n => do
    let e ← s.engines[n]?
    if e.monitor = .restarting then
      some (ServeManager.modify n (fun e => { e with monitor := .done })
        { s with restarts := s.restarts ++ s.config.toList.map fun config => ⟨config, n⟩ })
    else none
  | .restart k => do
    let thread ← s.restarts[k]?
    if s.idle then
      some (ServeManager.autoStart thread.config thread.trigger
        { s with restarts := s.restarts.eraseIdx k }).2
    else none

def Reachable [DecidableEq Config] (meets : ServeManager Config → ServeEvent Config → Prop)
    (s : ServeManager Config) : Prop :=
  ∃ autoRestart adopted, Reaches step meets (boot autoRestart adopted) s

end ServeManager

end FreeSwarm.Daemon
