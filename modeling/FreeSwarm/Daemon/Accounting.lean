import FreeSwarm.Daemon.ServeSteps

/-!
# Accounting of the engines

The final receipts of the engines: the one that a stop makes and persists before it signals, and the one
that the monitor makes of a crash. What is persisted outlives the daemon, and what says which engines
have their receipt does not.
-/

namespace FreeSwarm.Daemon

open FreeSwarm.Foundation

/-! ## Receipts -/

structure ServeConfig where
  model : String
  port : Nat
  args : List String
  deriving DecidableEq

/-- What an engine has counted. -/
structure Totals where
  modelId : String
  promptTotal : Nat
  completionTotal : Nat
  uptimeS : Nat

structure Snapshot (Inst : Type) extends Totals where
  instanceId : Option Inst

inductive ReceiptId (Inst : Type) where
  | sealed (id : Inst)
  | snapshot (owner : Inst ⊕ Identity) (modelId : String) (promptTotal completionTotal : Nat)
  | degraded (identity : Identity)
  | crash (identity : Identity)
  deriving DecidableEq

def ReceiptId.isSealed {Inst : Type} : ReceiptId Inst → Bool
  | .sealed _ => true
  | _ => false

structure Receipt (Inst : Type) where
  receiptId : ReceiptId Inst
  instanceId : Option Inst
  modelId : Option String
  promptTokensTotal : Option Nat
  completionTokensTotal : Option Nat
  uptimeS : Option Nat
  drainComplete : Bool
  degraded : Bool
  bestEffort : Bool
  reason : Option String

/-- What the engine answers to the request to prepare for a stop. -/
inductive PrepareReply where
  | document (totals : Option Totals) (drainComplete : Bool)
  | unavailable
  | failed

section Receipts
variable {Inst : Type}

variable (identity : Identity) (instanceId : Option Inst) (model : Option String)

def sealedReceipt (totals : Option Totals) (drainComplete : Bool) :
    Option (Receipt Inst) := do
  let t ← totals
  let id ← instanceId
  if drainComplete then
    some { receiptId := .sealed id, instanceId := some id, modelId := some t.modelId
           promptTokensTotal := some t.promptTotal, completionTokensTotal := some t.completionTotal
           uptimeS := some t.uptimeS, drainComplete := true, degraded := false, bestEffort := false
           reason := none }
  else none

/-- The receipt of an engine whose totals could not be read. -/
def degradedReceipt (reason : String) : Receipt Inst :=
  { receiptId := .degraded identity, instanceId := none, modelId := model
    promptTokensTotal := none, completionTokensTotal := none, uptimeS := none
    drainComplete := false, degraded := true, bestEffort := true, reason := some reason }

/-- The receipt of an engine that was not sealed, from the totals that are read. -/
def bestEffortReceipt
    (stats : Option Totals) (reason : String) (force : Bool) : Option (Receipt Inst) :=
  match stats with
  | some t =>
    some { receiptId := .snapshot (match instanceId with | some id => .inl id | none => .inr identity)
             t.modelId t.promptTotal t.completionTotal
           instanceId := instanceId, modelId := some t.modelId
           promptTokensTotal := some t.promptTotal, completionTokensTotal := some t.completionTotal
           uptimeS := some t.uptimeS, drainComplete := false, degraded := true, bestEffort := true
           reason := some reason }
  | none =>
    if force then some (degradedReceipt identity model (reason ++ "-stats-unavailable")) else none

/-- The receipt that a stop makes, if it can. -/
def prepareReceipt
    (reply : PrepareReply) (stats : Option Totals) (force : Bool) : Option (Receipt Inst) :=
  match reply with
  | .unavailable => bestEffortReceipt identity instanceId model stats "legacy-engine" force
  | .document totals drainComplete =>
    match sealedReceipt instanceId totals drainComplete with
    | some r => some r
    | none =>
      if force then bestEffortReceipt identity instanceId model stats "prepare-stop-failed" true
      else none
  | .failed =>
    if force then bestEffortReceipt identity instanceId model stats "prepare-stop-failed" true
    else none

def crashReceipt (seen : Option (Snapshot Inst))
    (wasStopping : Bool) : Receipt Inst :=
  { receiptId := .crash identity
    instanceId := seen.bind (·.instanceId)
    modelId := match seen with | some t => some t.modelId | none => model
    promptTokensTotal := seen.map (·.promptTotal)
    completionTokensTotal := seen.map (·.completionTotal)
    uptimeS := seen.map (·.uptimeS), drainComplete := false, degraded := true, bestEffort := true
    reason := some (if wasStopping then "engine-crashed-during-stop" else "engine-crashed") }

end Receipts

/-! ## The daemons -/

/-- The daemon that runs, with what outlives it and what is known of all engines so far. -/
structure AccountedServe (Inst : Type) where
  serve : ServeManager ServeConfig
  force : Bool
  durable : List Identity
  lastAccounting : Identity → Option (Snapshot Inst)
  accounted : List Nat
  outbox : List (Receipt Inst)
  stateFile : Option (ServeConfig × Identity)
  launched : List (Identity × Option Inst)
  written : List (ReceiptId Inst × Identity)
  attempts : List Identity
  ended : List Identity
  signalled : List Identity

/-- Something that happens. -/
inductive AccountingEvent (Inst : Type) where
  | serve (force : Bool) (ev : ServeEvent ServeConfig)
  | spawn (pid : Int) (starttime : Option Int) (instanceId : Option Inst)
  | prepare (reply : PrepareReply) (stats : Option Totals) (persists : Bool)
  | account (n : Nat) (persists : Bool)
  | observe (seen : Snapshot Inst)
  | ack (id : ReceiptId Inst)
  | daemonRestart (autoRestart : Bool)

namespace AccountedServe
variable {Inst : Type}

/-- The first daemon has come up. -/
def boot (autoRestart : Bool) : AccountedServe Inst :=
  { serve := .boot autoRestart none, force := false, durable := [], lastAccounting := fun _ => none
    accounted := [], outbox := [], stateFile := none, launched := [], written := [], attempts := []
    ended := [], signalled := [] }

variable (s : AccountedServe Inst)

/-- The process of an engine of this daemon. -/
def identity? (n : Nat) : Option Identity :=
  s.serve.engines[n]?.map (·.identity)

def instanceOf (s : AccountedServe Inst) (identity : Identity) : Option Inst :=
  (s.launched.find? fun known => known.1 = identity).bind (·.2)

def persist [DecidableEq Inst] (r : Receipt Inst) (identity : Identity) (s : AccountedServe Inst) :
    AccountedServe Inst :=
  { s with
    outbox := if s.outbox.any (·.receiptId = r.receiptId) then s.outbox else s.outbox ++ [r]
    written := s.written ++ [(r.receiptId, identity)]
    durable := s.durable ++ [identity]
    lastAccounting := fun i => if i = identity then none else s.lastAccounting i }

/-- The events that the supervisor takes by itself. A monitor removes the child when it has seen to the
receipt. -/
def plain : ServeEvent ServeConfig → Bool
  | .prepared | .prepareFails | .accountingFails _ | .spawn _ _ => false
  | .clear n => n ∈ s.accounted ∨ s.serve.engines[n]?.any fun e =>
      match e.monitor with
      | .sampled _ isCurrent => !isCurrent
      | _ => false
  | _ => true

def forces (force : Bool) (s : AccountedServe Inst) : ServeEvent ServeConfig → Bool
  | .stop | .shutdown | .switch _ => force
  | _ => s.force

/-- What is written or recorded beside the supervisor. -/
def note (ev : ServeEvent ServeConfig) (s : AccountedServe Inst) : AccountedServe Inst :=
  match ev, s.serve.holder with
  | .terminate, some (.signal n _) | .kill, some (.asked n _) =>
    { s with signalled := s.signalled ++ (s.identity? n).toList }
  | .watch, some (.watch n) =>
    { s with stateFile := s.serve.engines[n]?.map fun e => (e.config, e.identity) }
  | .clear n, _ => { s with ended := s.ended ++ (s.identity? n).toList }
  | .reap n, _ =>
    if s.serve.engines[n]?.any fun e =>
      match e.monitor with
      | .cleared _ isCurrent => isCurrent
      | _ => false
    then { s with stateFile := none } else s
  | _, _ => s

/-- The engine in the state file is alive. -/
def adoptable : Option (ServeConfig × Int × Option Int) :=
  s.stateFile.bind fun found =>
    if s.serve.engines.any fun e => e.identity = found.2 ∧ e.exited = false then
      some (found.1, found.2.1, found.2.2)
    else none

/-- The next daemon comes up, and adopts the engine in the state file when that is alive. -/
def restart (autoRestart : Bool) (s : AccountedServe Inst) : AccountedServe Inst :=
  { s with
    serve := .boot autoRestart s.adoptable
    force := false
    durable := []
    lastAccounting := fun _ => none
    accounted := []
    stateFile := if s.adoptable.isSome then s.stateFile else none
    ended := s.ended ++
      (s.serve.engines.filter fun e => e.exited && e.monitor.held).map (·.identity) }

/-- What an event does, when it can happen. -/
def step [DecidableEq Inst] (s : AccountedServe Inst) :
    AccountingEvent Inst → Option (AccountedServe Inst)
  | .serve force ev =>
    if s.plain ev then do
      let serve ← s.serve.step ev
      some { s.note ev with serve := serve, force := s.forces force ev }
    else none
  -- A process is known by its number and its start, and an instance by its identifier.
  | .spawn pid starttime instanceId =>
    if s.launched.all fun known =>
        known.1 ≠ (pid, starttime) ∧ (known.2 = none ∨ known.2 ≠ instanceId) then do
      let serve ← s.serve.step (.spawn pid starttime)
      some { s with
        serve := serve, launched := s.launched ++ [((pid, starttime), instanceId)] }
    else none
  | .prepare reply stats persists =>
    match s.serve.holder with
    | some (.prepare n _) => do
      let e ← s.serve.engines[n]?
      -- An engine that has exited does not answer.
      let (reply, stats) := if e.exited then (.failed, none) else (reply, stats)
      match prepareReceipt e.identity (s.instanceOf e.identity) (s.serve.config.map (·.model)) reply
          stats s.force with
      | some r =>
        if persists then do
          let serve ← s.serve.step .prepared
          some { s.persist r e.identity with serve := serve, attempts := s.attempts ++ [e.identity] }
        else do
          let serve ← s.serve.step .prepareFails
          some { s with serve := serve }
      | none => do
        let serve ← s.serve.step .prepareFails
        some { s with serve := serve }
    | _ => none
  | .account n persists => do
    let e ← s.serve.engines[n]?
    match e.monitor with
    | .sampled wasStopping true =>
      if n ∈ s.accounted then none
      else if e.identity ∈ s.durable then some { s with accounted := n :: s.accounted }
      else if persists then
        some { s.persist (crashReceipt e.identity (s.serve.config.map (·.model))
            (s.lastAccounting e.identity) wasStopping) e.identity with
          accounted := n :: s.accounted }
      else do
        let serve ← s.serve.step (.accountingFails n)
        some { s with serve := serve, accounted := n :: s.accounted }
    | _ => none
  | .observe seen =>
    match s.serve.child.bind s.identity? with
    | some identity => some { s with
        lastAccounting := fun i => if i = identity then some seen else s.lastAccounting i }
    | none => some s
  | .ack id => some { s with outbox := s.outbox.filter fun r => r.receiptId ≠ id }
  | .daemonRestart autoRestart => some (s.restart autoRestart)

def Reachable [DecidableEq Inst] (meets : AccountedServe Inst → AccountingEvent Inst → Prop)
    (s : AccountedServe Inst) : Prop := ∃ autoRestart, Reaches step meets (boot autoRestart) s

end AccountedServe

end FreeSwarm.Daemon
