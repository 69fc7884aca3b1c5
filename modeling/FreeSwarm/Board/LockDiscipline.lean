import FreeSwarm.Board.Handlers

/-!
# The discipline of the board's lock

No handler takes the lock of the database twice, and each leaves it released, whatever the database
does, but for three: posting a message, creating a task and claiming one resolve their project while
they hold the lock. Without a project in the registry and none named in the request, the first
project is created on demand, and the rows without a project are given to it under the lock, which
the handler holds already.
-/

namespace FreeSwarm.Board.Service

open FreeSwarm.Foundation LockM

section

variable {Outside : Type} (e : Engine Outside)

def OnRegistry (holds : Registry → Prop) (b : BoardState Outside) : Prop := holds b.registry

section

variable {held : Bool} {holds : Registry → Prop}

/-! ## What handlers use -/

theorem keeps_time : Keeps held (OnRegistry holds) (time e) := .read _

theorem keeps_uuid4 : Keeps held (OnRegistry holds) (uuid4 e) := by
  apply Keeps.act
  intro b id b' before same
  obtain ⟨-, rfl⟩ := Prod.mk.inj (Except.ok.inj same)
  exact before

theorem keeps_outside {α β : Type} (call : Outside → Except Error β) (result : β → α)
    (next : β → Outside) :
    Keeps held (OnRegistry holds) (act fun b : BoardState Outside =>
      (call b.outside).map fun value => (result value, { b with outside := next value })) := by
  apply Keeps.act
  intro b value b' before same
  cases answer : call b.outside with
  | error error =>
    rw [answer] at same
    cases same
  | ok given =>
    rw [answer] at same
    obtain ⟨-, rfl⟩ := Prod.mk.inj (Except.ok.inj same)
    exact before

theorem keeps_db : Keeps held (OnRegistry holds) (db e) := keeps_outside e.connect _ _

theorem keeps_execute (sql : String) (params : List Data) :
    Keeps held (OnRegistry holds) (execute e sql params) := keeps_outside (e.execute sql params) _ _

theorem keeps_commit : Keeps held (OnRegistry holds) (commit e) := keeps_outside e.commit _ _

theorem keeps_pureOr {α : Type} (result : Except Error α) :
    Keeps held (OnRegistry holds) (pureOr result : Handler Outside α) := by
  apply Keeps.act
  intro b value b' before same
  cases result with
  | error error => cases same
  | ok given =>
    obtain ⟨-, rfl⟩ := Prod.mk.inj (Except.ok.inj same)
    exact before

theorem keeps_rejectIf (condition : Prop) [Decidable condition] (error : Error) :
    Keeps held (OnRegistry holds) (rejectIf condition error : Handler Outside Unit) := by
  unfold rejectIf
  split
  · exact .raise error
  · exact .pure ()

theorem keeps_column (key : String) (row : Row) :
    Keeps held (OnRegistry holds) (column key row : Handler Outside Data) := keeps_pureOr _

theorem keeps_number (key : String) (row : Row) :
    Keeps held (OnRegistry holds) (number key row : Handler Outside ℚ) := by
  apply Keeps.bind (keeps_column key row)
  intro value
  split
  · exact .pure _
  · exact .raise _

theorem keeps_decodeColumn (key fallback : String) (row : Row) :
    Keeps held (OnRegistry holds) (decodeColumn e key fallback row) :=
  .bind (keeps_column key row) fun _ => .bind (keeps_pureOr _) fun _ => .pure _

theorem keeps_decodeAgent (now : Time) (row : Row) :
    Keeps held (OnRegistry holds) (decodeAgent e now row) :=
  .bind (keeps_decodeColumn e _ _ row) fun _ => .bind (keeps_number _ _) fun _ => .pure _

theorem keeps_decodeSession (row : Row) :
    Keeps held (OnRegistry holds) (decodeSession row : Handler Outside Row) :=
  .bind (keeps_column _ row) fun _ => .pure _

theorem keeps_expireLeases : Keeps held (OnRegistry holds) (expireLeases e) :=
  .bind (keeps_time e) fun _ => .bind (keeps_execute e _ _) fun _ =>
    .bind (keeps_commit e) fun _ => .pure _

theorem keeps_currentSessionId (projectId : String) :
    Keeps held (OnRegistry holds) (currentSessionId e projectId) := by
  apply Keeps.bind (keeps_execute e _ _)
  intro cursor
  split
  · exact .bind (keeps_column _ _) fun _ => .pure _
  · exact .bind (keeps_time e) fun _ => .bind (keeps_uuid4 e) fun _ =>
      .bind (keeps_execute e _ _) fun _ => .bind (keeps_commit e) fun _ => .pure _

theorem keeps_adoptOrphans (projectId : String) :
    Keeps held (OnRegistry holds) (adoptOrphans e projectId) :=
  .bind (.mapM (fun _ => .bind (keeps_execute e _ _) fun _ => .pure _) _) fun _ =>
    .bind (keeps_commit e) fun _ => .pure _

end

/-! ## Projects -/

def Anything : Registry → Prop := fun _ => True

theorem keeps_create (name : String) : Keeps false (OnRegistry Anything) (create e name) :=
  .act fun _ _ _ _ _ => trivial

theorem keeps_ensureDefault : Keeps false (OnRegistry Anything) (ensureDefault e) := by
  apply Keeps.bind (.read _)
  intro registry
  split
  · exact keeps_create e _
  · split
    · exact .pure _
    · exact .raise _

theorem keeps_resolveProject (explicit : Option String) :
    Keeps false (OnRegistry Anything) (resolveProject e explicit) := by
  unfold resolveProject
  split
  · apply Keeps.bind (.read _)
    intro project
    split
    · exact .raise _
    · exact .pure _
  · apply Keeps.bind (.read _)
    intro current
    split
    · exact .pure _
    · exact .bind (keeps_ensureDefault e) fun _ =>
        .bind (.withLock (.bind (keeps_db e) fun _ => keeps_adoptOrphans e _)) fun _ => .pure _

/-- A project is named, or there is one. -/
def Resolvable (explicit : Option String) (registry : Registry) : Prop :=
  given explicit ≠ none ∨ registry.projects ≠ []

theorem Registry.activeId_ne_none {registry : Registry} (some_ : registry.projects ≠ []) :
    given registry.activeId ≠ none := by
  have named : ∀ id ∈ registry.projects.map Project.id, given (some id) ≠ none := by
    intro id mem
    obtain ⟨project, -, rfl⟩ := List.mem_map.mp mem
    simp [given, project.named]
  obtain ⟨first, rest, split⟩ := List.exists_cons_of_ne_nil some_
  have head : given (registry.projects.head?.map Project.id) ≠ none := by
    rw [split]
    exact named first.id (by simp [split])
  unfold Registry.activeId
  split
  · split
    · next mem => exact named _ mem
    · exact head
  · exact head

theorem keeps_resolveProject_locked (explicit : Option String) :
    Keeps true (OnRegistry (Resolvable explicit)) (resolveProject e explicit) := by
  unfold resolveProject
  split
  · apply Keeps.bind (.read _)
    intro project
    split
    · exact .raise _
    · exact .pure _
  · next missing =>
    apply Keeps.read_bind
    rintro current ⟨b, resolvable, rfl⟩
    have there : b.registry.projects ≠ [] := by
      rcases resolvable with named | there
      · exact absurd missing named
      · exact there
    split
    · exact .pure _
    · next none_ => exact absurd none_ (Registry.activeId_ne_none there)

/-! ## Handlers that resolve their project before they take the lock -/

theorem keeps_select (sql : String) (params : List Data) :
    Keeps false (OnRegistry Anything) (withLock do
      db e
      let cursor ← execute e sql params
      pure cursor.rows) :=
  .withLock (.bind (keeps_db e) fun _ => .bind (keeps_execute e _ _) fun _ => .pure _)

theorem keeps_update (sql : String) (params : Time → List Data) :
    Keeps false (OnRegistry Anything) (withLock do
      db e
      let now ← time e
      let cursor ← execute e sql (params now)
      commit e
      pure cursor) :=
  .withLock (.bind (keeps_db e) fun _ => .bind (keeps_time e) fun _ =>
    .bind (keeps_execute e _ _) fun _ => .bind (keeps_commit e) fun _ => .pure _)

theorem keeps_registerAgent (req : AgentRegister) :
    Keeps false (OnRegistry Anything) (registerAgent e req) := by
  apply Keeps.bind (keeps_time e)
  intro now
  apply Keeps.bind (keeps_resolveProject e _)
  intro scope
  apply Keeps.bind
  · apply Keeps.withLock
    apply Keeps.bind (keeps_db e)
    intro _
    apply Keeps.bind (keeps_execute e _ _)
    intro cursor
    apply Keeps.bind
    · unfold agentIdOf
      split
      · exact keeps_column _ _
      · exact .bind (keeps_uuid4 e) fun _ => .pure _
    · intro agentId
      exact .bind (keeps_execute e _ _) fun _ => .bind (keeps_commit e) fun _ => .pure _
  · exact fun _ => .pure _

theorem keeps_heartbeat (agentId status : String) :
    Keeps false (OnRegistry Anything) (heartbeat e agentId status) :=
  .bind (keeps_update e _ _) fun _ => .bind (keeps_rejectIf _ _) fun _ => .pure _

variable (projectId : Option String) (scope : String)

theorem keeps_listAgents :
    Keeps false (OnRegistry Anything) (listAgents e projectId) :=
  .bind (keeps_time e) fun _ => .bind (keeps_resolveProject e _) fun _ =>
    .bind (keeps_select e _ _) fun _ => .bind (.mapM (keeps_decodeAgent e _) _) fun _ => .pure _

theorem keeps_readMessages (channel : Option String) (since limit : ℚ)
    (sessionId projectId : Option String) (tail : ℚ) :
    Keeps false (OnRegistry Anything)
      (readMessages e channel since limit sessionId projectId tail) :=
  .bind (keeps_select e _ _) fun _ => .mapM (keeps_decodeColumn e _ _) _

theorem keeps_messagesAnswer (since : ℚ) (entries : List Row) :
    Keeps false (OnRegistry Anything) (messagesAnswer since entries : Handler Outside Data) := by
  unfold messagesAnswer
  split
  · exact .bind (keeps_column _ _) fun _ => .pure _
  · exact .pure _

/-- Each look of a waiting reader leaves the lock released, so that others go on. -/
theorem keeps_poll (req : GetMessages) (scope : String) (polls : Nat) :
    Keeps false (OnRegistry Anything) (poll e req scope polls) := by
  induction polls with
  | zero => exact .pure _
  | succ polls ih =>
    apply Keeps.bind
    · exact .act fun _ _ _ _ _ => trivial
    · intro _
      apply Keeps.bind (keeps_readMessages e _ _ _ _ _ _)
      intro entries
      split
      · exact ih
      · exact .pure _

theorem keeps_getMessages (req : GetMessages) (polls : Nat) :
    Keeps false (OnRegistry Anything) (getMessages e req polls) := by
  apply Keeps.bind (keeps_resolveProject e _)
  intro scope
  apply Keeps.bind (keeps_readMessages e _ _ _ _ _ _)
  intro entries
  split
  · exact keeps_messagesAnswer _ _
  · split
    · apply Keeps.bind
      · unfold waitForMessages
        split
        · exact keeps_poll e req scope polls
        · exact .pure _
      · exact fun _ => keeps_messagesAnswer _ _
    · exact keeps_messagesAnswer _ _

theorem keeps_rows (sql : String) (params : List Data) :
    Keeps false (OnRegistry Anything) (rows e sql params) :=
  .bind (keeps_select e _ _) fun _ => .mapM (keeps_decodeColumn e _ _) _

theorem keeps_teamWindow (through : Option ℚ) :
    Keeps false (OnRegistry Anything) (teamWindow e scope through) :=
  .bind (keeps_rows e _ _) fun _ => .pure _

theorem keeps_markersOf (wanted : Bool) (scope : String) (agents : List String) (seq : ℚ) :
    Keeps false (OnRegistry Anything) (markersOf e wanted scope agents seq) := by
  unfold markersOf
  split
  · rw [← bind_pure_comp]
    exact .bind (keeps_rows e _ _) fun _ => .pure _
  · exact .pure _

theorem keeps_olderStarts (team markers : List Row) (agent : String) :
    Keeps false (OnRegistry Anything) (olderStarts e scope team markers agent) := by
  apply Keeps.bind (keeps_pureOr _)
  intro first
  split
  · exact .pure _
  · apply Keeps.bind (keeps_rows e _ _)
    intro lowest
    split
    · exact .bind (keeps_number _ _) fun _ => .pure _
    · exact .pure _

theorem keeps_startsOf (old : Bool) (scope : String) (team markers : List Row)
    (agents : List String) :
    Keeps false (OnRegistry Anything) (startsOf e old scope team markers agents) := by
  unfold startsOf
  split
  · exact .mapM (keeps_olderStarts e scope team markers) agents
  · exact .pure _

theorem keeps_teamBoard (team : List Row) (agents : List String) (detail : Bool) :
    Keeps false (OnRegistry Anything) (teamBoard e scope team agents detail) := by
  apply Keeps.bind (.mapM (fun _ => keeps_number _ _) _)
  intro seqs
  split
  · exact .pure _
  · apply Keeps.bind (keeps_pureOr _)
    intro named
    apply Keeps.bind (keeps_markersOf e _ _ _ _)
    intro markers
    apply Keeps.bind (keeps_startsOf e _ _ _ _ _)
    intro starts
    apply Keeps.bind (keeps_rows e _ _)
    intro board
    apply Keeps.bind (.mapM (fun _ => keeps_number _ _) _)
    intro have_
    dsimp only
    split
    · exact .pure _
    · exact .bind (keeps_rows e _ _) fun _ => .pure _

theorem keeps_lastSeq (team : List Row) (through : Option ℚ) :
    Keeps false (OnRegistry Anything) (lastSeq team through : Handler Outside Data) := by
  unfold lastSeq
  split
  · exact keeps_column _ _
  · exact .pure _

theorem keeps_teamThreads (agent : String) (projectId : Option String) (through : Option ℚ) :
    Keeps false (OnRegistry Anything) (teamThreads e agent projectId through) := by
  apply Keeps.bind (keeps_resolveProject e _)
  intro scope
  apply Keeps.bind (keeps_teamWindow e _ _)
  intro team
  split
  · exact .bind (keeps_pureOr _) fun _ => .pure _
  · exact .bind (keeps_teamBoard e _ _ _ _) fun _ => .bind (keeps_pureOr _) fun _ =>
      .bind (keeps_lastSeq _ _) fun _ => .pure _

theorem keeps_teamCounts (through : Option ℚ) :
    Keeps false (OnRegistry Anything) (teamCounts e projectId through) :=
  .bind (keeps_resolveProject e _) fun _ => .bind (keeps_teamWindow e _ _) fun _ =>
    .bind (keeps_teamBoard e _ _ _ _) fun _ => .bind (keeps_pureOr _) fun _ =>
      .bind (keeps_lastSeq _ _) fun _ => .pure _

theorem keeps_channels : Keeps false (OnRegistry Anything) (channels e) :=
  .bind (keeps_select e _ _) fun _ => .pure _

theorem keeps_completeTask (taskId : String) (req : CompleteTask) :
    Keeps false (OnRegistry Anything) (completeTask e taskId req) :=
  .bind (keeps_update e _ _) fun _ => .bind (keeps_rejectIf _ _) fun _ => .pure _

theorem keeps_extendLease (taskId : String) (req : ClaimTask) :
    Keeps false (OnRegistry Anything) (extendLease e taskId req) :=
  .bind (.withLock (.bind (keeps_db e) fun _ => .bind (keeps_time e) fun _ =>
    .bind (keeps_time e) fun _ => .bind (keeps_execute e _ _) fun _ =>
      .bind (keeps_commit e) fun _ => .pure _)) fun _ =>
    .bind (keeps_rejectIf _ _) fun _ => .pure _

theorem keeps_listTasks (status : Option String) (limit : ℚ) (projectId : Option String) :
    Keeps false (OnRegistry Anything) (listTasks e status limit projectId) :=
  .bind (keeps_resolveProject e _) fun _ =>
    .bind (.withLock (.bind (keeps_db e) fun _ => .bind (keeps_expireLeases e) fun _ =>
      .bind (keeps_execute e _ _) fun _ => .pure _)) fun _ => .pure _

theorem keeps_storedVersion (held : Bool) (rows : List Row) :
    Keeps held (OnRegistry Anything) (storedVersion rows : Handler Outside (Option ℚ)) := by
  unfold storedVersion
  split
  · rw [← bind_pure_comp]
    exact .bind (keeps_number _ _) fun _ => .pure _
  · exact .pure _

theorem keeps_setState (key : String) (req : SetValue) :
    Keeps false (OnRegistry Anything) (setState e key req) := by
  apply Keeps.bind (keeps_time e)
  intro now
  apply Keeps.bind (keeps_resolveProject e _)
  intro scope
  apply Keeps.bind
  · apply Keeps.withLock
    apply Keeps.bind (keeps_db e)
    intro _
    apply Keeps.bind (keeps_execute e _ _)
    intro cursor
    apply Keeps.bind (keeps_storedVersion true _)
    intro stored
    exact .bind (keeps_rejectIf _ _) fun _ => .bind (keeps_execute e _ _) fun _ =>
      .bind (keeps_commit e) fun _ => .pure _
  · exact fun _ => .pure _

theorem keeps_getState (key : String) (projectId : Option String) :
    Keeps false (OnRegistry Anything) (getState e key projectId) := by
  apply Keeps.bind (keeps_resolveProject e _)
  intro scope
  apply Keeps.bind
  · exact .withLock (.bind (keeps_db e) fun _ => .bind (keeps_execute e _ _) fun _ => .pure _)
  · intro row
    split
    · exact .raise _
    · exact .bind (keeps_decodeColumn e _ _ _) fun _ => .pure _

theorem keeps_listState :
    Keeps false (OnRegistry Anything) (listState e projectId) :=
  .bind (keeps_resolveProject e _) fun _ => .bind (keeps_select e _ _) fun _ =>
    .bind (.mapM (keeps_decodeColumn e _ _) _) fun _ => .pure _

theorem keeps_startSession (req : NewSession) :
    Keeps false (OnRegistry Anything) (startSession e req) :=
  .bind (keeps_time e) fun _ => .bind (keeps_uuid4 e) fun _ =>
    .bind (keeps_resolveProject e _) fun _ =>
      .bind (.withLock (.bind (keeps_db e) fun _ => .bind (keeps_execute e _ _) fun _ =>
        .bind (keeps_execute e _ _) fun _ => keeps_commit e)) fun _ => .pure _

theorem keeps_closeSession (sessionId : String) :
    Keeps false (OnRegistry Anything) (closeSession e sessionId) :=
  .bind (keeps_update e _ _) fun _ => .bind (keeps_rejectIf _ _) fun _ => .pure _

theorem keeps_listSessions (limit : ℚ) (projectId : Option String) :
    Keeps false (OnRegistry Anything) (listSessions e limit projectId) :=
  .bind (keeps_resolveProject e _) fun _ => .bind (keeps_select e _ _) fun _ =>
    .bind (.mapM keeps_decodeSession _) fun _ => .pure _

theorem keeps_getSession (sessionId : String) :
    Keeps false (OnRegistry Anything) (getSession e sessionId) := by
  apply Keeps.bind
  · apply Keeps.withLock
    apply Keeps.bind (keeps_db e)
    intro _
    apply Keeps.bind (keeps_execute e _ _)
    intro cursor
    split
    · exact .raise _
    · exact .bind (keeps_execute e _ _) fun _ => .bind (keeps_execute e _ _) fun _ => .pure _
  · intro parts
    exact .bind (keeps_decodeSession _) fun _ =>
      .bind (.mapM (keeps_decodeColumn e _ _) _) fun _ => .pure _

theorem keeps_checkpoint : Keeps false (OnRegistry Anything) (checkpoint e) :=
  .bind (.withLock (.bind (keeps_db e) fun _ => keeps_execute e _ _)) fun _ => .pure _

theorem keeps_summary :
    Keeps false (OnRegistry Anything) (summary e projectId) := by
  apply Keeps.bind (keeps_time e)
  intro now
  apply Keeps.bind (keeps_resolveProject e _)
  intro scope
  apply Keeps.bind
  · exact .withLock (.bind (keeps_db e) fun _ => .bind (keeps_expireLeases e) fun _ =>
      .bind (keeps_execute e _ _) fun _ => .bind (keeps_execute e _ _) fun _ =>
        .bind (keeps_execute e _ _) fun _ => .bind (keeps_column _ _) fun _ =>
          .bind (keeps_execute e _ _) fun _ => .pure _)
  · intro parts
    exact .bind (.mapM (keeps_decodeAgent e now) _) fun _ =>
      .bind (.mapM (fun _ => .bind (keeps_column _ _) fun _ => .bind (keeps_column _ _) fun _ =>
        .pure _) _) fun _ => .pure _

/-! ## Handlers that resolve their project under the lock -/

theorem keeps_postMessage (req : PostMessage) :
    Keeps false (OnRegistry (Resolvable req.projectId)) (postMessage e req) :=
  .bind (.withLock (.bind (keeps_db e) fun _ => .bind (keeps_resolveProject_locked e _) fun _ =>
    .bind (keeps_currentSessionId e _) fun _ => .bind (keeps_time e) fun _ =>
      .bind (keeps_execute e _ _) fun _ => .bind (keeps_commit e) fun _ => .pure _)) fun _ =>
    .pure _

theorem keeps_createTask (req : CreateTask) :
    Keeps false (OnRegistry (Resolvable req.projectId)) (createTask e req) :=
  .bind (keeps_time e) fun _ => .bind (keeps_uuid4 e) fun _ =>
    .bind (.withLock (.bind (keeps_db e) fun _ => .bind (keeps_resolveProject_locked e _) fun _ =>
      .bind (keeps_currentSessionId e _) fun _ => .bind (keeps_execute e _ _) fun _ =>
        .bind (keeps_commit e) fun _ => .pure _)) fun _ => .pure _

theorem keeps_claimNext (req : ClaimTask) :
    Keeps false (OnRegistry (Resolvable req.projectId)) (claimNext e req) := by
  apply Keeps.bind (keeps_time e)
  intro now
  apply Keeps.bind
  · apply Keeps.withLock
    apply Keeps.bind (keeps_db e)
    intro _
    apply Keeps.bind (keeps_expireLeases e)
    intro _
    apply Keeps.bind (keeps_resolveProject_locked e _)
    intro scope
    apply Keeps.bind (keeps_execute e _ _)
    intro cursor
    split
    · exact .pure _
    · apply Keeps.bind (keeps_column _ _)
      intro id
      apply Keeps.bind (keeps_execute e _ _)
      intro claimed
      apply Keeps.bind (keeps_commit e)
      intro _
      split
      · exact .pure _
      · exact .bind (keeps_execute e _ _) fun _ => .pure _
  · exact fun _ => .pure _

end

/-! ## All handlers -/

/-- The handler of a request ends, and leaves the lock released, whatever the database, the clock
and the file system do. -/
def Disciplined (request : Request) (registry : Registry) : Prop :=
  ∀ (Outside : Type) (e : Engine Outside) (outside : Outside),
    (handle e request (false, ⟨registry, outside⟩)).1.Settled ∧
      (handle e request (false, ⟨registry, outside⟩)).2.1 = false

/-- A request that resolves its project under the lock names one, or there is one. -/
def Request.Supported (registry : Registry) : Request → Prop
  | .postMessage req => Resolvable req.projectId registry
  | .createTask req => Resolvable req.projectId registry
  | .claimNext req => Resolvable req.projectId registry
  | _ => True

variable {request : Request} {registry : Registry}

theorem disciplined_of_keeps
    {holds : Registry → Prop} (begins : holds registry)
    (keeps : ∀ (Outside : Type) (e : Engine Outside),
      Keeps false (OnRegistry holds) (handle e request)) : Disciplined request registry := by
  intro Outside e outside
  obtain ⟨settled, released, -⟩ := keeps Outside e ⟨registry, outside⟩ begins
  exact ⟨settled, released⟩

theorem disciplined_of_supported
    (supported : request.Supported registry) : Disciplined request registry := by
  cases request with
  | postMessage req => exact disciplined_of_keeps supported fun _ e => keeps_postMessage e req
  | createTask req => exact disciplined_of_keeps supported fun _ e => keeps_createTask e req
  | claimNext req => exact disciplined_of_keeps supported fun _ e => keeps_claimNext e req
  | registerAgent req => exact disciplined_of_keeps trivial fun _ e => keeps_registerAgent e req
  | heartbeat agentId status =>
    exact disciplined_of_keeps trivial fun _ e => keeps_heartbeat e agentId status
  | listAgents projectId =>
    exact disciplined_of_keeps trivial fun _ e => keeps_listAgents e projectId
  | getMessages req polls =>
    exact disciplined_of_keeps trivial fun _ e => keeps_getMessages e req polls
  | teamThreads agent projectId through =>
    exact disciplined_of_keeps trivial fun _ e => keeps_teamThreads e agent projectId through
  | teamCounts projectId through =>
    exact disciplined_of_keeps trivial fun _ e => keeps_teamCounts e projectId through
  | channels => exact disciplined_of_keeps trivial fun _ e => keeps_channels e
  | completeTask taskId req =>
    exact disciplined_of_keeps trivial fun _ e => keeps_completeTask e taskId req
  | extendLease taskId req =>
    exact disciplined_of_keeps trivial fun _ e => keeps_extendLease e taskId req
  | listTasks status limit projectId =>
    exact disciplined_of_keeps trivial fun _ e => keeps_listTasks e status limit projectId
  | setState key req => exact disciplined_of_keeps trivial fun _ e => keeps_setState e key req
  | getState key projectId =>
    exact disciplined_of_keeps trivial fun _ e => keeps_getState e key projectId
  | listState projectId => exact disciplined_of_keeps trivial fun _ e => keeps_listState e projectId
  | startSession req => exact disciplined_of_keeps trivial fun _ e => keeps_startSession e req
  | closeSession sessionId =>
    exact disciplined_of_keeps trivial fun _ e => keeps_closeSession e sessionId
  | listSessions limit projectId =>
    exact disciplined_of_keeps trivial fun _ e => keeps_listSessions e limit projectId
  | getSession sessionId =>
    exact disciplined_of_keeps trivial fun _ e => keeps_getSession e sessionId
  | checkpoint => exact disciplined_of_keeps trivial fun _ e => keeps_checkpoint e
  | health => exact disciplined_of_keeps (show Anything registry from trivial) fun _ _ => .pure _
  | summary projectId => exact disciplined_of_keeps trivial fun _ e => keeps_summary e projectId

/-! ## Requests that are not supported -/

/-- An engine of which no call fails, over an empty database. -/
def calm : Engine Unit where
  connect := fun _ => .ok ()
  execute := fun _ _ _ => .ok (⟨[], 0, none⟩, ())
  commit := fun _ => .ok ()
  now := fun _ => 0
  uuid := fun _ => ("p", ())
  uuid_ne := fun _ => by decide
  makeDirs := fun slug _ => .ok (slug, ())
  writeProjects := fun _ _ => .ok ()
  meanwhile := id
  localTime := fun _ => ""
  slugify := id
  strip := id
  loads := fun _ => .ok .null
  dumps := fun _ => ""
  teamThreads := {
    collabRecords := fun _ _ => []
    referencedSeqs := fun _ => .ok []
    firstStartSeq := fun _ _ _ => .ok none
    replyTarget := fun _ => none
    models := fun _ => []
    threads := fun _ _ _ _ => .ok []
    summary := fun _ _ _ => .ok .null }

theorem resolveProject_blocks {explicit : Option String} {registry : Registry}
    (unresolvable : ¬ Resolvable explicit registry) :
    Blocks (resolveProject calm explicit) (true, ⟨registry, ()⟩) := by
  rw [Resolvable, not_or, not_not, not_not] at unresolvable
  obtain ⟨missing, empty⟩ := unresolvable
  have inactive : given registry.activeId = none := by
    unfold Registry.activeId
    split <;> simp [empty, given]
  have created : ∃ project b', ensureDefault calm (true, ⟨registry, ()⟩) =
      (.returned project, (true, b')) := by
    unfold ensureDefault
    have reads : (LockM.read BoardState.registry : Handler Unit Registry) (true, ⟨registry, ()⟩) =
        (.returned registry, (true, ⟨registry, ()⟩)) := rfl
    rw [bind_of_returned reads, if_pos empty]
    exact ⟨_, _, rfl⟩
  obtain ⟨project, b', creates⟩ := created
  have reads : (LockM.read fun b => b.registry.activeId : Handler Unit (Option String))
      (true, ⟨registry, ()⟩) = (.returned registry.activeId, (true, ⟨registry, ()⟩)) := rfl
  unfold resolveProject
  rw [missing]
  refine .behind reads ?_
  rw [inactive]
  exact .behind creates (.first (.held _ b'))

theorem handle_blocks
    (unsupported : ¬ request.Supported registry) :
    Blocks (handle calm request) (false, ⟨registry, ()⟩) := by
  cases request with
  | postMessage req =>
    exact .first (.withLock (.behind rfl (.first (resolveProject_blocks unsupported))))
  | createTask req =>
    exact .behind rfl (.behind rfl
      (.first (.withLock (.behind rfl (.first (resolveProject_blocks unsupported))))))
  | claimNext req =>
    exact .behind rfl
      (.first (.withLock (.behind rfl (.behind rfl (.first (resolveProject_blocks unsupported))))))
  | _ => exact absurd trivial unsupported

/-- The discipline of the lock is kept for a request exactly if, where it resolves its project under
the lock, it names a project or there is one. -/
theorem disciplined_iff (request : Request) (registry : Registry) :
    Disciplined request registry ↔ request.Supported registry := by
  constructor
  · intro disciplined
    by_contra unsupported
    have settled := (disciplined Unit calm ()).1
    rw [handle_blocks unsupported] at settled
    exact settled
  · exact disciplined_of_supported

/-- A message that does not name its project. -/
def firstMessage : PostMessage :=
  ⟨none, "general", "agent", none, "chat", "hello", .dict [], none⟩

/-- The first message to a board without projects is never answered, and no later request is. -/
theorem firstMessage_blocks : ¬ Disciplined (.postMessage firstMessage) ⟨[], none⟩ := by
  intro disciplined
  have blocks : Blocks (handle calm (.postMessage firstMessage)) (false, ⟨⟨[], none⟩, ()⟩) :=
    handle_blocks (by simp [Request.Supported, Resolvable, given, firstMessage])
  have settled := (disciplined Unit calm ()).1
  rw [blocks] at settled
  exact settled

end FreeSwarm.Board.Service
