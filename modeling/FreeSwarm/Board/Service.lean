import FreeSwarm.Foundation.LockM
import FreeSwarm.Foundation.Text
import Mathlib.Algebra.Order.Ring.Rat
import Mathlib.Data.List.Sort

/-!
# The requests to the message board

The board serves its requests from one connection to its database, which is used under a lock that
is not reentrant. Each handler is a computation under that lock, as the source has it: what it reads
of the registry of projects, the statements it executes, the errors it raises and the order of all
these. The database and the clock are an engine that may answer anything and may fail at any call.
-/

namespace FreeSwarm.Board.Service

open FreeSwarm.Foundation

/-- A reading of the clock, in seconds. -/
abbrev Time := ℚ

/-- A value in a row, a parameter of a statement or an answer. -/
inductive Data where
  | null
  | bool (value : Bool)
  | num (value : ℚ)
  | text (value : String)
  | list (items : List Data)
  | dict (members : List (String × Data))

def Data.ofText : Option String → Data
  | some value => .text value
  | none => .null

def Data.ofNum : Option ℚ → Data
  | some value => .num value
  | none => .null

/-- What `or` puts in the place of a missing or empty text. -/
def Data.textOr (fallback : String) : Data → String
  | .text value => if value = "" then fallback else value
  | _ => fallback

/-- The member of a dict. -/
def Data.get (key : String) : Data → Option Data
  | .dict members => members.lookup key
  | _ => none

abbrev Row := List (String × Data)

def Row.set (key : String) (value : Data) : Row → Row
  | [] => [(key, value)]
  | (k, v) :: rest => if k = key then (k, value) :: rest else (k, v) :: Row.set key value rest

/-- What a statement gives. -/
structure Cursor where
  rows : List Row
  rowcount : Int
  lastrowid : Option Int

inductive Error where
  | http (status : Nat) (detail : String)
  | other (message : String)

structure Project where
  id : String
  named : id ≠ ""
  name : String
  slug : String
  dataDir : String
  connectors : List String
  createdAt : Time

/-- The registry of projects. A file that cannot be read is an empty registry. -/
structure Registry where
  projects : List Project
  active : Option String

/-- What is known about the teams, from the messages of the board alone. -/
structure TeamThreads where
  collabRecords : List Row → String → List Row
  referencedSeqs : List Row → Except Error (List ℚ)
  firstStartSeq : List Row → String → List Row → Except Error (Option ℚ)
  replyTarget : Row → Option ℚ
  models : List Row → List String
  threads : List Row → List Row → String → Option (List Row) → Except Error Row
  summary : List Row → List Row → Option (List Row) → Except Error Data

variable (Outside : Type)

/-- What is outside: the database, the clock, the file system and the other requests. -/
structure Engine where
  connect : Outside → Except Error Outside
  execute : String → List Data → Outside → Except Error (Cursor × Outside)
  commit : Outside → Except Error Outside
  now : Outside → Time
  uuid : Outside → String × Outside
  uuid_ne : ∀ outside, (uuid outside).1 ≠ ""
  makeDirs : String → Outside → Except Error (String × Outside)
  writeProjects : Registry → Outside → Except Error Outside
  meanwhile : Registry × Outside → Registry × Outside
  localTime : Time → String
  slugify : String → String
  strip : String → String
  loads : String → Except Error Data
  dumps : Data → String
  teamThreads : TeamThreads

structure BoardState where
  registry : Registry
  outside : Outside

abbrev Handler := LockM Error (BoardState Outside)

section

variable {Outside : Type} (e : Engine Outside)

/-! ## What handlers use -/

def time : Handler Outside Time := LockM.read fun b => e.now b.outside

/-- A new identity. -/
def uuid4 : Handler Outside String :=
  LockM.act fun b => .ok ((e.uuid b.outside).1, { b with outside := (e.uuid b.outside).2 })

/-- The connection. -/
def db : Handler Outside Unit :=
  LockM.act fun b => (e.connect b.outside).map fun outside => ((), { b with outside })

def execute (sql : String) (params : List Data) : Handler Outside Cursor :=
  LockM.act fun b => (e.execute sql params b.outside).map fun (cursor, outside) =>
    (cursor, { b with outside })

/-- The transaction ends. -/
def commit : Handler Outside Unit :=
  LockM.act fun b => (e.commit b.outside).map fun outside => ((), { b with outside })

/-- What a computation without state gives. -/
def pureOr {α : Type} (result : Except Error α) : Handler Outside α :=
  LockM.act fun b => result.map fun value => (value, b)

def rejectIf (condition : Prop) [Decidable condition] (error : Error) : Handler Outside Unit :=
  if condition then LockM.raise error else pure ()

def column (key : String) (row : Row) : Handler Outside Data :=
  pureOr (match row.lookup key with
    | some value => .ok value
    | none => .error (.other ("No item with that key: " ++ key)))

def number (key : String) (row : Row) : Handler Outside ℚ := do
  let value ← column key row
  match value with
  | .num value => pure value
  | _ => LockM.raise (.other ("not a number: " ++ key))

def given : Option String → Option String
  | some text => if text = "" then none else some text
  | none => none

/-! ## Projects -/

def Registry.get (registry : Registry) (projectId : String) : Option Project :=
  registry.projects.find? fun p => p.id = projectId

/-- The active project, or the first one if that was deleted. -/
def Registry.activeId (registry : Registry) : Option String :=
  match registry.active with
  | some current =>
    if current ∈ registry.projects.map Project.id then some current
    else registry.projects.head?.map Project.id
  | none => registry.projects.head?.map Project.id

/-- The first name that is not taken, with a number behind it from 2 on. -/
def freshSlug (base : String) (taken : List String) : String :=
  ((base :: (List.range (taken.length + 1)).map fun n => base ++ "-" ++ toString (n + 2)).find?
    fun slug => slug ∉ taken).getD base

/-- A new project without connectors, in a directory of its own. -/
def create (name : String) : Handler Outside Project :=
  LockM.act fun b =>
    if e.strip name = "" then .error (.other "project name must not be empty")
    else
      let slug := freshSlug (e.slugify (e.strip name)) (b.registry.projects.map Project.slug)
      (e.makeDirs slug b.outside).bind fun (dataDir, outside) =>
        let project : Project := {
          id := (e.uuid outside).1, named := e.uuid_ne outside, name := e.strip name, slug := slug,
          dataDir := dataDir, connectors := [], createdAt := e.now outside }
        let registry : Registry := {
          projects := b.registry.projects ++ [project],
          active :=
            if (given b.registry.active).isSome then b.registry.active else some project.id }
        (e.writeProjects registry (e.uuid outside).2).map fun outside =>
          (project, { registry := registry, outside := outside })

def ensureDefault : Handler Outside Project := do
  let registry ← LockM.read BoardState.registry
  if registry.projects = [] then create e "Default"
  else
    match registry.projects.find? fun p => some p.id = registry.activeId with
    | some project => pure project
    | none => LockM.raise (.other "StopIteration")

/-- Every table that knows projects. -/
def scopedTables : List String := ["sessions", "messages", "tasks", "agents", "blackboard2"]

/-- The rows without a project are given to one. -/
def adoptOrphans (projectId : String) : Handler Outside Int := do
  let counts ← scopedTables.mapM fun table => do
    let cursor ← execute e ("UPDATE " ++ table ++ " SET project_id=? WHERE project_id=''")
      [.text projectId]
    pure cursor.rowcount
  commit e
  pure counts.sum

def resolveProject (explicit : Option String) : Handler Outside String := do
  match given explicit with
  | some projectId =>
    let project ← LockM.read fun b => b.registry.get projectId
    match project with
    | none => LockM.raise (.http 404 ("no project '" ++ projectId ++ "'"))
    | some _ => pure projectId
  | none =>
    let current ← LockM.read fun b => b.registry.activeId
    match given current with
    | some current => pure current
    | none =>
      let created ← ensureDefault e
      let _ ← LockM.withLock do
        db e
        adoptOrphans e created.id
      pure created.id

def currentSessionId (projectId : String) : Handler Outside String := do
  let cursor ← execute e ("SELECT id FROM sessions WHERE ended_at IS NULL AND project_id=? " ++
    "ORDER BY started_at DESC LIMIT 1") [.text projectId]
  match cursor.rows with
  | row :: _ =>
    let id ← column "id" row
    pure (id.textOr "")
  | [] =>
    let now ← time e
    let sessionId ← uuid4 e
    let _ ← execute e "INSERT INTO sessions (id,title,started_at,project_id) VALUES (?,?,?,?)"
      [.text sessionId, .text (e.localTime now), .num now, .text projectId]
    commit e
    pure sessionId

/-- The timed-out claims return to the queue. -/
def expireLeases : Handler Outside Int := do
  let now ← time e
  let cursor ← execute e
    ("UPDATE tasks SET status='open', claimed_by=NULL, lease_until=NULL, updated_at=? " ++
      "WHERE status='claimed' AND lease_until IS NOT NULL AND lease_until < ?") [.num now, .num now]
  commit e
  pure cursor.rowcount

def decodeColumn (key fallback : String) (row : Row) : Handler Outside Row := do
  let raw ← column key row
  let value ← pureOr (e.loads (raw.textOr fallback))
  pure (Row.set key value row)

def emptyDict : String := "\x7b\x7d"

def decodeMessage (row : Row) : Handler Outside Row := decodeColumn e "meta" emptyDict row

/-- How long an agent is online behind its last sign, in seconds. -/
def agentStaleS : ℚ := 90

def decodeAgent (now : Time) (row : Row) : Handler Outside Row := do
  let row ← decodeColumn e "capabilities" "[]" row
  let lastSeen ← number "last_seen" row
  pure (Row.set "online" (.bool (now - lastSeen < agentStaleS)) row)

def ofRows (rows : List Row) : Data := .list (rows.map .dict)

def ofRow : Option Row → Data
  | some row => .dict row
  | none => .null

end

end FreeSwarm.Board.Service
