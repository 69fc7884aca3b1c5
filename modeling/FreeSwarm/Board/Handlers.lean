import FreeSwarm.Board.Service

/-!
# The handlers of the message board

One definition for each handler. The three that put a message or a task on the board or claim one
resolve their project while they hold the lock of the database; the others do so before.
-/

namespace FreeSwarm.Board.Service

open FreeSwarm.Foundation LockM

section

variable {Outside : Type} (e : Engine Outside)

/-! ## Agents -/

structure AgentRegister where
  projectId : Option String
  name : String
  role : String
  model : String
  capabilities : List String

def agentIdOf (rows : List Row) : Handler Outside Data :=
  match rows with
  | row :: _ => column "id" row
  | [] => do
    let id ← uuid4 e
    pure (.text id)

def registerAgent (req : AgentRegister) : Handler Outside Data := do
  let now ← time e
  let scope ← resolveProject e req.projectId
  let agentId ← withLock do
    db e
    let cursor ← execute e "SELECT id FROM agents WHERE name=? AND project_id=?"
      [.text req.name, .text scope]
    let agentId ← agentIdOf e cursor.rows
    let _ ← execute e
      ("INSERT INTO agents " ++
        "(id,name,role,model,capabilities,registered_at,last_seen,status,project_id) " ++
        "VALUES (?,?,?,?,?,?,?, 'idle',?) " ++
        "ON CONFLICT(id) DO UPDATE SET role=excluded.role, model=excluded.model, " ++
        "capabilities=excluded.capabilities, last_seen=excluded.last_seen")
      [agentId, .text req.name, .text req.role, .text req.model,
        .text (e.dumps (.list (req.capabilities.map .text))), .num now, .num now, .text scope]
    commit e
    pure agentId
  pure (.dict [("agent_id", agentId), ("name", .text req.name), ("project_id", .text scope)])

/-- An agent gives a sign of life. -/
def heartbeat (agentId status : String) : Handler Outside Data := do
  let cursor ← withLock do
    db e
    let now ← time e
    let cursor ← execute e "UPDATE agents SET last_seen=?, status=? WHERE id=?"
      [.num now, .text status, .text agentId]
    commit e
    pure cursor
  rejectIf (cursor.rowcount = 0) (.http 404 "unknown agent")
  pure (.dict [("ok", .bool true)])

variable (scope : String) (projectId : Option String)

def listAgents : Handler Outside Data := do
  let now ← time e
  let scope ← resolveProject e projectId
  let rows ← withLock do
    db e
    let cursor ← execute e "SELECT * FROM agents WHERE project_id=? ORDER BY name" [.text scope]
    pure cursor.rows
  let agents ← rows.mapM (decodeAgent e now)
  pure (.dict [("agents", ofRows agents)])

/-! ## Messages -/

structure PostMessage where
  projectId : Option String
  channel : String
  author : String
  authorId : Option String
  kind : String
  content : String
  meta_ : Data
  replyTo : Option ℚ

def postMessage (req : PostMessage) : Handler Outside Data := do
  let (seq, sessionId, projectId) ← withLock do
    db e
    let projectId ← resolveProject e req.projectId
    let sessionId ← currentSessionId e projectId
    let now ← time e
    let cursor ← execute e
      ("INSERT INTO messages " ++
        "(channel,author,author_id,kind,content,meta,reply_to,ts,session_id,project_id) " ++
        "VALUES (?,?,?,?,?,?,?,?,?,?)")
      [.text req.channel, .text req.author, .ofText req.authorId, .text req.kind, .text req.content,
        .text (e.dumps req.meta_), .ofNum req.replyTo, .num now, .text sessionId, .text projectId]
    commit e
    pure (cursor.lastrowid, sessionId, projectId)
  pure (.dict [("seq", .ofNum (seq.map Int.cast)), ("session_id", .text sessionId),
    ("project_id", .text projectId)])

def clause (column : String) (value : Option String) : List (String × Data) :=
  match given value with
  | some value => [(column ++ " = ?", .text value)]
  | none => []

/-- The messages behind a number, or the last ones. -/
def readMessages (channel : Option String) (since limit : ℚ)
    (sessionId projectId : Option String) (tail : ℚ) : Handler Outside (List Row) := do
  let clauses := ("seq > ?", .num since) :: clause "channel" channel ++
    clause "session_id" sessionId ++ clause "project_id" projectId
  let order := if tail ≠ 0 then "DESC" else "ASC"
  let sql := "SELECT * FROM messages WHERE " ++ " AND ".intercalate (clauses.map Prod.fst) ++
    " ORDER BY seq " ++ order ++ " LIMIT ?"
  let rows ← withLock do
    db e
    let cursor ← execute e sql (clauses.map Prod.snd ++ [.num (if tail ≠ 0 then tail else limit)])
    pure cursor.rows
  (if tail ≠ 0 then rows.reverse else rows).mapM (decodeMessage e)

structure GetMessages where
  channel : Option String
  since : ℚ
  limit : ℚ
  wait : ℚ
  sessionId : Option String
  projectId : Option String
  tail : ℚ

def messagesAnswer (since : ℚ) (entries : List Row) : Handler Outside Data :=
  match entries.getLast? with
  | some last => do
    let cursor ← column "seq" last
    pure (.dict [("entries", ofRows entries), ("next_cursor", cursor)])
  | none => pure (.dict [("entries", ofRows entries), ("next_cursor", .num since)])

def sleep : Handler Outside Unit :=
  act fun b =>
    .ok ((), ⟨(e.meanwhile (b.registry, b.outside)).1, (e.meanwhile (b.registry, b.outside)).2⟩)

/-- The reader sleeps and looks again, as often as the clock is before the end of its wait. -/
def poll (req : GetMessages) (scope : String) : Nat → Handler Outside (List Row)
  | 0 => pure []
  | polls + 1 => do
    sleep e
    let entries ← readMessages e req.channel req.since req.limit req.sessionId (some scope) 0
    match entries with
    | [] => poll req scope polls
    | entries => pure entries

/-- What a reader finds while it may wait. -/
def waitForMessages (req : GetMessages) (scope : String) (polls : Nat) :
    Handler Outside (List Row) :=
  if 0 < req.wait then poll e req scope polls else pure []

/-- The messages behind the last one read. A reader that may wait looks again until there is one. -/
def getMessages (req : GetMessages) (polls : Nat) : Handler Outside Data := do
  let scope ← resolveProject e req.projectId
  let entries ← readMessages e req.channel req.since req.limit req.sessionId (some scope) req.tail
  if req.tail ≠ 0 then messagesAnswer req.since entries
  else
    match entries with
    | [] => do
      let entries ← waitForMessages e req scope polls
      messagesAnswer req.since entries
    | entries => messagesAnswer req.since entries

/-! ## Teams -/

/-- The messages that a statement selects. -/
def rows (sql : String) (params : List Data) : Handler Outside (List Row) := do
  let rows ← withLock do
    db e
    let cursor ← execute e sql params
    pure cursor.rows
  rows.mapM (decodeMessage e)

/-- How many messages of the team are looked at. -/
def teamWindowSize : ℚ := 300

/-- How many messages an inbox holds. -/
def inboxTail : ℚ := 150

/-- The number of a message to look up to, if one other than zero is given. -/
def capped : Option ℚ → Option ℚ
  | some through => if through = 0 then none else some through
  | none => none

/-- The last messages of the team, oldest first. -/
def teamWindow (through : Option ℚ) : Handler Outside (List Row) := do
  let cap := (capped through).toList
  let team ← rows e
    ("SELECT * FROM messages WHERE channel='team' AND project_id=? " ++
      (if cap = [] then "" else "AND seq<=?") ++ " ORDER BY seq DESC LIMIT ?")
    (.text scope :: cap.map .num ++ [.num teamWindowSize])
  pure team.reverse

def places {α : Type} (values : List α) : String := ",".intercalate (values.map fun _ => "?")

def hasInbox (record : Row) : Bool :=
  match ((record.lookup "meta").bind (Data.get "collab")).bind (Data.get "inbox_seqs") with
  | some (.list _) => true
  | _ => false

def isAuthor (agent : String) (message : Row) : Bool :=
  match message.lookup "author" with
  | some (.text author) => author = agent
  | _ => false

def smallest (first : ℚ) (numbers : List ℚ) : ℚ := numbers.foldl min first

def olderStarts (team markers : List Row) (agent : String) :
    Handler Outside (List ℚ) := do
  let first ← pureOr (e.teamThreads.firstStartSeq team agent (markers.filter (isAuthor agent)))
  match first with
  | none => pure []
  | some first => do
    let lowest ← rows e ("SELECT seq, '" ++ emptyDict ++ "' AS meta FROM messages WHERE " ++
      "project_id=? AND seq<? ORDER BY seq DESC LIMIT 1 OFFSET ?")
      [.text scope, .num first, .num (inboxTail - 1)]
    match lowest with
    | row :: _ => do
      let seq ← number "seq" row
      pure [seq]
    | [] => pure [0]

def agentNotes (agents : List String) (seq : ℚ) : Handler Outside (List Row) :=
  rows e
    ("SELECT * FROM messages WHERE channel='general' AND project_id=? AND author IN (" ++
      places agents ++ ") AND seq<=? AND (content LIKE 'Iteration on%' OR " ++
      "content LIKE 'Mentoring: reading%') ORDER BY seq")
    (.text scope :: agents.map .text ++ [.num seq])

def markersOf (wanted : Bool) (scope : String) (agents : List String) (seq : ℚ) :
    Handler Outside (Option (List Row)) :=
  if wanted then some <$> agentNotes e scope agents seq else pure none

/-- Where the board has to start for the older records of some agents, if there are any. -/
def startsOf (old : Bool) (scope : String) (team markers : List Row) (agents : List String) :
    Handler Outside (List (List ℚ)) :=
  if old then agents.mapM (olderStarts e scope team markers) else pure []

/-- The messages that some records need, and the notes of their agents. -/
def teamBoard (team : List Row) (agents : List String) (detail : Bool) :
    Handler Outside (List Row × Option (List Row)) := do
  let recs := agents.flatMap (e.teamThreads.collabRecords team)
  let seqs ← recs.mapM (number "seq")
  match seqs with
  | [] => pure ([], none)
  | seq :: seqs => do
    let named ← pureOr (e.teamThreads.referencedSeqs recs)
    let old := recs.any fun record => !hasInbox record
    let markers ← markersOf e (detail || old) scope agents (seqs.foldl max seq)
    let starts ← startsOf e old scope team (markers.getD []) agents
    let loSeq := smallest seq (seqs ++ named ++ starts.flatten)
    let board ← rows e "SELECT * FROM messages WHERE project_id=? AND seq>=? ORDER BY seq"
      [.text scope, .num loSeq]
    let have_ ← board.mapM (number "seq")
    let targets := (board.zip have_).filterMap fun (message, seq) =>
      if seq ∈ named then (e.teamThreads.replyTarget message).filter (· < loSeq) else none
    let want := (((targets.filter (· ∉ have_)).dedup.mergeSort (· ≤ ·))).take 500
    if want = [] then pure (board, markers)
    else do
      let older ← rows e
        ("SELECT * FROM messages WHERE project_id=? AND seq IN (" ++ places want ++ ")")
        (.text scope :: want.map .num)
      pure (older ++ board, markers)

def lastSeq (team : List Row) (through : Option ℚ) : Handler Outside Data :=
  match team.getLast? with
  | some last => column "seq" last
  | none => pure (.ofNum through)

/-- The messages behind the counts of a model. -/
def teamThreads (agent : String) (projectId : Option String) (through : Option ℚ) :
    Handler Outside Data := do
  let scope ← resolveProject e projectId
  let team ← teamWindow e scope through
  match e.teamThreads.collabRecords team agent with
  | [] => do
    let answer ← pureOr (e.teamThreads.threads [] [] agent none)
    pure (.dict (Row.set "through" (.ofNum through) answer))
  | _ => do
    let (board, markers) ← teamBoard e scope team [agent] true
    let answer ← pureOr (e.teamThreads.threads team board agent markers)
    let last ← lastSeq team through
    pure (.dict (Row.set "through" last answer))

def teamCounts (through : Option ℚ) : Handler Outside Data := do
  let scope ← resolveProject e projectId
  let team ← teamWindow e scope through
  let (board, markers) ← teamBoard e scope team (e.teamThreads.models team) false
  let agents ← pureOr (e.teamThreads.summary team board markers)
  let last ← lastSeq team through
  pure (.dict [("agents", agents), ("through", last)])

def channels : Handler Outside Data := do
  let rows ← withLock do
    db e
    let cursor ← execute e ("SELECT channel, COUNT(*) n, MAX(ts) last_ts FROM messages " ++
      "GROUP BY channel ORDER BY last_ts DESC") []
    pure cursor.rows
  pure (.dict [("channels", ofRows rows)])

/-! ## Tasks -/

structure CreateTask where
  projectId : Option String
  title : String
  description : String
  tier : String
  parentId : Option String

def createTask (req : CreateTask) : Handler Outside Data := do
  let now ← time e
  let taskId ← uuid4 e
  let (sessionId, projectId) ← withLock do
    db e
    let projectId ← resolveProject e req.projectId
    let sessionId ← currentSessionId e projectId
    let _ ← execute e
      ("INSERT INTO tasks (id,title,description,tier,status,parent_id,created_at,updated_at," ++
        "session_id,project_id) VALUES (?,?,?,?, 'open', ?,?,?,?,?)")
      [.text taskId, .text req.title, .text req.description, .text req.tier, .ofText req.parentId,
        .num now, .num now, .text sessionId, .text projectId]
    commit e
    pure (sessionId, projectId)
  pure (.dict [("task_id", .text taskId), ("status", .text "open"), ("session_id", .text sessionId),
    ("project_id", .text projectId)])

structure ClaimTask where
  projectId : Option String
  agentId : String
  leaseS : ℚ
  tier : Option String

def oldestOpen (tier : Option String) : String × List Data :=
  match (given tier).filter (· ≠ "auto") with
  | some tier =>
    ("SELECT id FROM tasks WHERE status='open' AND project_id=? " ++
      "AND tier IN (?, 'auto') ORDER BY created_at LIMIT 1", [.text scope, .text tier])
  | none =>
    ("SELECT id FROM tasks WHERE status='open' AND project_id=? " ++
      "ORDER BY created_at LIMIT 1", [.text scope])

def claimNext (req : ClaimTask) : Handler Outside Data := do
  let now ← time e
  let task ← withLock do
    db e
    let _ ← expireLeases e
    let scope ← resolveProject e req.projectId
    let query := oldestOpen scope req.tier
    let cursor ← execute e query.1 query.2
    match cursor.rows with
    | [] => pure none
    | row :: _ => do
      let id ← column "id" row
      let claimed ← execute e
        ("UPDATE tasks SET status='claimed', claimed_by=?, lease_until=?, updated_at=?, " ++
          "attempts=attempts+1 WHERE id=? AND status='open'")
        [.text req.agentId, .num (now + req.leaseS), .num now, id]
      commit e
      if claimed.rowcount = 0 then pure none
      else do
        let task ← execute e "SELECT * FROM tasks WHERE id=?" [id]
        pure task.rows.head?
  pure (.dict [("task", ofRow task)])

structure CompleteTask where
  agentId : String
  status : String
  result : String

def completeTask (taskId : String) (req : CompleteTask) : Handler Outside Data := do
  let cursor ← withLock do
    db e
    let now ← time e
    let cursor ← execute e
      ("UPDATE tasks SET status=?, result=?, lease_until=NULL, updated_at=? " ++
        "WHERE id=? AND claimed_by=?")
      [.text req.status, .text req.result, .num now, .text taskId, .text req.agentId]
    commit e
    pure cursor
  rejectIf (cursor.rowcount = 0)
    (.http 409 "task is not claimed by this agent (lease may have expired)")
  pure (.dict [("ok", .bool true), ("status", .text req.status)])

def extendLease (taskId : String) (req : ClaimTask) : Handler Outside Data := do
  let cursor ← withLock do
    db e
    let now ← time e
    let now' ← time e
    let cursor ← execute e
      ("UPDATE tasks SET lease_until=?, updated_at=? WHERE id=? AND claimed_by=? " ++
        "AND status='claimed'")
      [.num (now + req.leaseS), .num now', .text taskId, .text req.agentId]
    commit e
    pure cursor
  rejectIf (cursor.rowcount = 0) (.http 409 "task not claimed by this agent")
  pure (.dict [("ok", .bool true)])

def tasksOf (status : Option String) (limit : ℚ) : String × List Data :=
  match given status with
  | some status =>
    ("SELECT * FROM tasks WHERE project_id=? AND status=? ORDER BY created_at DESC LIMIT ?",
      [.text scope, .text status, .num limit])
  | none =>
    ("SELECT * FROM tasks WHERE project_id=? ORDER BY created_at DESC LIMIT ?",
      [.text scope, .num limit])

def listTasks (status : Option String) (limit : ℚ) (projectId : Option String) :
    Handler Outside Data := do
  let scope ← resolveProject e projectId
  let rows ← withLock do
    db e
    let _ ← expireLeases e
    let query := tasksOf scope status limit
    let cursor ← execute e query.1 query.2
    pure cursor.rows
  pure (.dict [("tasks", ofRows rows)])

/-! ## Blackboard -/

structure SetValue where
  projectId : Option String
  value : Data
  updatedBy : String
  expectVersion : Option ℚ

def storedVersion (rows : List Row) : Handler Outside (Option ℚ) :=
  match rows with
  | row :: _ => some <$> number "version" row
  | [] => pure none

def setState (key : String) (req : SetValue) : Handler Outside Data := do
  let now ← time e
  let scope ← resolveProject e req.projectId
  let version ← withLock do
    db e
    let cursor ← execute e "SELECT version FROM blackboard2 WHERE project_id=? AND key=?"
      [.text scope, .text key]
    let stored ← storedVersion cursor.rows
    rejectIf (req.expectVersion.any (· ≠ stored.getD 0))
      (.http 409 ("version conflict: stored " ++ toString (stored.getD 0) ++ ", expected " ++
        toString (req.expectVersion.getD 0)))
    let version := match stored with
      | some stored => stored + 1
      | none => 1
    let _ ← execute e
      ("INSERT INTO blackboard2 (project_id,key,value,version,updated_by,updated_at) " ++
        "VALUES (?,?,?,?,?,?) ON CONFLICT(project_id,key) DO UPDATE SET value=excluded.value, " ++
        "version=excluded.version, updated_by=excluded.updated_by, updated_at=excluded.updated_at")
      [.text scope, .text key, .text (e.dumps req.value), .num version, .text req.updatedBy,
        .num now]
    commit e
    pure version
  pure (.dict [("key", .text key), ("version", .num version), ("project_id", .text scope)])

/-- A value is read. -/
def getState (key : String) (projectId : Option String) : Handler Outside Data := do
  let scope ← resolveProject e projectId
  let row ← withLock do
    db e
    let cursor ← execute e "SELECT * FROM blackboard2 WHERE project_id=? AND key=?"
      [.text scope, .text key]
    pure cursor.rows.head?
  match row with
  | none => raise (.http 404 "no such key")
  | some row => do
    let row ← decodeColumn e "value" "" row
    pure (.dict row)

def listState : Handler Outside Data := do
  let scope ← resolveProject e projectId
  let rows ← withLock do
    db e
    let cursor ← execute e "SELECT * FROM blackboard2 WHERE project_id=? ORDER BY key" [.text scope]
    pure cursor.rows
  let entries ← rows.mapM (decodeColumn e "value" "")
  pure (.dict [("entries", ofRows entries)])

/-! ## Sessions -/

structure NewSession where
  projectId : Option String
  title : String
  note : String

def startSession (req : NewSession) : Handler Outside Data := do
  let now ← time e
  let sessionId ← uuid4 e
  let title := if e.strip req.title = "" then e.localTime now else e.strip req.title
  let scope ← resolveProject e req.projectId
  let _ ← withLock do
    db e
    let _ ← execute e "UPDATE sessions SET ended_at=? WHERE ended_at IS NULL AND project_id=?"
      [.num now, .text scope]
    let _ ← execute e
      "INSERT INTO sessions (id,title,note,started_at,project_id) VALUES (?,?,?,?,?)"
      [.text sessionId, .text title, .text req.note, .num now, .text scope]
    commit e
  pure (.dict [("session_id", .text sessionId), ("title", .text title), ("started_at", .num now),
    ("project_id", .text scope)])

def closeSession (sessionId : String) : Handler Outside Data := do
  let cursor ← withLock do
    db e
    let now ← time e
    let cursor ← execute e "UPDATE sessions SET ended_at=? WHERE id=? AND ended_at IS NULL"
      [.num now, .text sessionId]
    commit e
    pure cursor
  rejectIf (cursor.rowcount = 0) (.http 404 "no such open session")
  pure (.dict [("ok", .bool true)])

def decodeSession (row : Row) : Handler Outside Row := do
  let ended ← column "ended_at" row
  let active := match ended with
    | .null => true
    | _ => false
  pure (Row.set "active" (.bool active) row)

def listSessions (limit : ℚ) (projectId : Option String) : Handler Outside Data := do
  let scope ← resolveProject e projectId
  let rows ← withLock do
    db e
    let cursor ← execute e
      ("SELECT s.*, " ++
        "(SELECT COUNT(*) FROM messages m WHERE m.session_id = s.id) AS message_count, " ++
        "(SELECT COUNT(*) FROM tasks t WHERE t.session_id = s.id) AS task_count, " ++
        "(SELECT COUNT(*) FROM tasks t WHERE t.session_id = s.id AND t.status = 'done') " ++
        "AS tasks_done FROM sessions s WHERE s.project_id = ? ORDER BY s.started_at DESC LIMIT ?")
      [.text scope, .num limit]
    pure cursor.rows
  let sessions ← rows.mapM decodeSession
  pure (.dict [("sessions", ofRows sessions)])

def getSession (sessionId : String) : Handler Outside Data := do
  let (row, messages, tasks) ← withLock do
    db e
    let cursor ← execute e "SELECT * FROM sessions WHERE id=?" [.text sessionId]
    match cursor.rows with
    | [] => raise (.http 404 "no such session")
    | row :: _ => do
      let messages ← execute e "SELECT * FROM messages WHERE session_id=? ORDER BY seq"
        [.text sessionId]
      let tasks ← execute e "SELECT * FROM tasks WHERE session_id=? ORDER BY created_at"
        [.text sessionId]
      pure (row, messages.rows, tasks.rows)
  let session ← decodeSession row
  let messages ← messages.mapM (decodeMessage e)
  pure (.dict [("session", .dict session), ("messages", ofRows messages), ("tasks", ofRows tasks)])

/-! ## The service itself -/

/-- Where the database is. -/
def dbPath : String := "msgboard.sqlite3"

/-- The log of the database is written back. -/
def checkpoint : Handler Outside Data := do
  let _ ← withLock do
    db e
    execute e "PRAGMA wal_checkpoint(TRUNCATE)" []
  pure (.dict [("ok", .bool true), ("db", .text dbPath)])

/-- The service is alive. -/
def health : Handler Outside Data := pure (.dict [("status", .text "ok"), ("db", .text dbPath)])

/-- Everything the dashboard shows of a project. -/
def summary : Handler Outside Data := do
  let now ← time e
  let scope ← resolveProject e projectId
  let (agents, counts, total, session) ← withLock do
    db e
    let _ ← expireLeases e
    let agents ← execute e "SELECT * FROM agents WHERE project_id=? ORDER BY name" [.text scope]
    let counts ← execute e "SELECT status, COUNT(*) n FROM tasks WHERE project_id=? GROUP BY status"
      [.text scope]
    let totals ← execute e "SELECT COUNT(*) n FROM messages WHERE project_id=?" [.text scope]
    let total ← column "n" (totals.rows.head?.getD [])
    let session ← execute e ("SELECT * FROM sessions WHERE ended_at IS NULL AND project_id=? " ++
      "ORDER BY started_at DESC LIMIT 1") [.text scope]
    pure (agents.rows, counts.rows, total, session.rows.head?)
  let agents ← agents.mapM (decodeAgent e now)
  let counts ← counts.mapM fun row => do
    let status ← column "status" row
    let n ← column "n" row
    pure (status.textOr "", n)
  pure (.dict [("agents", ofRows agents), ("task_counts", .dict counts), ("message_total", total),
    ("project_id", .text scope), ("session", ofRow session), ("ts", .num now)])

/-! ## Requests -/

inductive Request where
  | registerAgent (req : AgentRegister)
  | heartbeat (agentId status : String)
  | listAgents (projectId : Option String)
  | postMessage (req : PostMessage)
  | getMessages (req : GetMessages) (polls : Nat)
  | teamThreads (agent : String) (projectId : Option String) (through : Option ℚ)
  | teamCounts (projectId : Option String) (through : Option ℚ)
  | channels
  | createTask (req : CreateTask)
  | claimNext (req : ClaimTask)
  | completeTask (taskId : String) (req : CompleteTask)
  | extendLease (taskId : String) (req : ClaimTask)
  | listTasks (status : Option String) (limit : ℚ) (projectId : Option String)
  | setState (key : String) (req : SetValue)
  | getState (key : String) (projectId : Option String)
  | listState (projectId : Option String)
  | startSession (req : NewSession)
  | closeSession (sessionId : String)
  | listSessions (limit : ℚ) (projectId : Option String)
  | getSession (sessionId : String)
  | checkpoint
  | health
  | summary (projectId : Option String)

def handle : Request → Handler Outside Data
  | .registerAgent req => registerAgent e req
  | .heartbeat agentId status => heartbeat e agentId status
  | .listAgents projectId => listAgents e projectId
  | .postMessage req => postMessage e req
  | .getMessages req polls => getMessages e req polls
  | .teamThreads agent projectId through => teamThreads e agent projectId through
  | .teamCounts projectId through => teamCounts e projectId through
  | .channels => channels e
  | .createTask req => createTask e req
  | .claimNext req => claimNext e req
  | .completeTask taskId req => completeTask e taskId req
  | .extendLease taskId req => extendLease e taskId req
  | .listTasks status limit projectId => listTasks e status limit projectId
  | .setState key req => setState e key req
  | .getState key projectId => getState e key projectId
  | .listState projectId => listState e projectId
  | .startSession req => startSession e req
  | .closeSession sessionId => closeSession e sessionId
  | .listSessions limit projectId => listSessions e limit projectId
  | .getSession sessionId => getSession e sessionId
  | .checkpoint => checkpoint e
  | .health => health
  | .summary projectId => summary e projectId

end

end FreeSwarm.Board.Service
