import FreeSwarm.Board.Tasks
import FreeSwarm.Foundation.FairRun
import Mathlib.Logic.Function.Basic

/-!
# The sessions of the message board

A session groups what happened during one run of a swarm, and one session of a project is open: that
is the current one. Sessions are opened on demand by whoever writes to the board, and explicitly. The
database is written by several processes, each of which has a lock of its own for its requests. What a
process does in one transaction is one step; the current session is looked up in one, and opened in
another.
-/

namespace FreeSwarm.Board

open FreeSwarm.Foundation

structure Session where
  id : Text
  title : Text
  note : Text := []
  startedAt : Time
  endedAt : Option Time := none
  projectId : Text
  deriving DecidableEq

variable (projectId : Text)

def Session.OpenIn (s : Session) : Prop :=
  s.endedAt = none ∧ s.projectId = projectId

instance Session.decidableOpenIn (projectId : Text) : DecidablePred (Session.OpenIn projectId) :=
  fun _ => inferInstanceAs (Decidable (_ ∧ _))

def openCount (sessions : List Session) : Nat :=
  rowCount (Session.OpenIn projectId) sessions

structure SessionBoard (Process : Type) where
  sessions : List Session
  opening : Process → Option Text

inductive SessionEvent (Process : Type) where
  | look (process : Process) (projectId : Text)
  | insert (process : Process) (sessionId title : Text) (now : Time)
  | fail (process : Process)
  | startSession (process : Process) (sessionId title note projectId : Text) (now : Time)
  | closeSession (process : Process) (sessionId : Text) (now : Time)
  | adoptOrphans (process : Process) (projectId : Text)
  | claimNext (process : Process)

def Session.close (now : Time) (s : Session) : Session := { s with endedAt := some now }

def Session.adopt (s : Session) : Session := { s with projectId := projectId }

namespace SessionBoard
variable {Process : Type} [DecidableEq Process] (b : SessionBoard Process)

/-- The first half of `current_session_id`: the open session, or that there is none. -/
def look (process : Process) (projectId : Text) : SessionBoard Process :=
  if openCount projectId b.sessions = 0 then
    { b with opening := Function.update b.opening process (some projectId) }
  else b

/-- The second half of `current_session_id`: a session is opened. -/
def insert (process : Process) (sessionId title : Text) (now : Time) :
    Option (SessionBoard Process) :=
  (b.opening process).bind fun projectId =>
    if sessionId ∈ b.sessions.map Session.id then none
    else some {
      sessions := b.sessions ++ [{
        id := sessionId, title := title, startedAt := now, projectId := projectId }]
      opening := Function.update b.opening process none }

def startSession (sessionId title note projectId : Text) (now : Time) :
    Option (SessionBoard Process) :=
  if sessionId ∈ b.sessions.map Session.id then none
  else some { b with
    sessions := updateWhere (Session.OpenIn projectId) (Session.close now) b.sessions ++ [{
      id := sessionId, title := title, note := note, startedAt := now, projectId := projectId }] }

def closeSession (sessionId : Text) (now : Time) : SessionBoard Process :=
  { b with
    sessions := updateWhere (fun s => s.id = sessionId ∧ s.endedAt = none) (Session.close now)
      b.sessions }

def adoptOrphans (projectId : Text) : SessionBoard Process :=
  { b with sessions := updateWhere (fun s => s.projectId = []) (Session.adopt projectId) b.sessions }

/-- A transaction. A process opens a session under the lock under which it looked for one. -/
def step : SessionEvent Process → Option (SessionBoard Process)
  | .look process projectId =>
    if (b.opening process).isSome then none else some (b.look process projectId)
  | .insert process sessionId title now => b.insert process sessionId title now
  | .fail process => some { b with opening := Function.update b.opening process none }
  | .startSession process sessionId title note projectId now =>
    if (b.opening process).isSome then none else b.startSession sessionId title note projectId now
  | .closeSession process sessionId now =>
    if (b.opening process).isSome then none else some (b.closeSession sessionId now)
  | .adoptOrphans process projectId =>
    if (b.opening process).isSome then none else some (b.adoptOrphans projectId)
  | .claimNext process => if (b.opening process).isSome then none else some b

/-- A fresh board has no sessions. One from the time before projects has sessions without a project, of
which one may be open. -/
def Begins : Prop :=
  (∀ s ∈ b.sessions, s.projectId = []) ∧ openCount [] b.sessions ≤ 1 ∧ ∀ process, b.opening process = none

def OneOpen : Prop := ∀ projectId, openCount projectId b.sessions ≤ 1

/-- No session is opened that somebody else opened meanwhile, and no open session is given to a project
that has one. -/
def Exclusive (b : SessionBoard Process) : SessionEvent Process → Prop
  | .insert process _ _ _ =>
    ∀ projectId, b.opening process = some projectId → openCount projectId b.sessions = 0
  | .adoptOrphans _ projectId =>
    projectId = [] ∨ openCount [] b.sessions + openCount projectId b.sessions ≤ 1
  | _ => True

end SessionBoard

/-! ## Counts of open sessions -/

section

variable {projectId other : Text} {sessions : List Session}

theorem openCount_append (s : Session) (opens : s.endedAt = none) :
    openCount other (sessions ++ [s]) =
      openCount other sessions + if s.projectId = other then 1 else 0 := by
  simp [openCount, rowCount, List.countP_append, List.countP_cons, Session.OpenIn, opens]

theorem openCount_close (p : Session → Prop) [DecidablePred p] (now : Time) :
    openCount other (updateWhere p (Session.close now) sessions) ≤ openCount other sessions := by
  rw [openCount, rowCount_updateWhere]
  apply List.countP_mono_left
  intro s _ opens
  rw [decide_eq_true_iff] at opens ⊢
  by_cases changed : p s
  · rw [if_pos changed] at opens
    cases opens.1
  · rwa [if_neg changed] at opens

theorem openCount_closeOpen (now : Time) :
    openCount projectId (updateWhere (Session.OpenIn projectId) (Session.close now) sessions) = 0 := by
  apply rowCount_eq_zero.mpr
  intro s mem opens
  obtain ⟨t, -, rfl⟩ := mem_updateWhere.mp mem
  split at opens
  · cases opens.1
  · next closed => exact closed opens

theorem openIn_adopt (s : Session) :
    (if s.projectId = [] then s.adopt projectId else s).OpenIn other ↔
      s.OpenIn [] ∧ projectId = other ∨ s.OpenIn other ∧ s.projectId ≠ [] := by
  by_cases orphan : s.projectId = []
  · rw [if_pos orphan]
    simp [Session.OpenIn, Session.adopt, orphan]
  · rw [if_neg orphan]
    simp [Session.OpenIn, orphan]

theorem openCount_adopt (some_ : projectId ≠ []) :
    openCount projectId (updateWhere (fun s => s.projectId = []) (Session.adopt projectId) sessions) =
      openCount [] sessions + openCount projectId sessions := by
  rw [openCount, rowCount_updateWhere, openCount, openCount, ← rowCount_or]
  · apply rowCount_congr
    intro s _
    rw [openIn_adopt]
    constructor
    · rintro (orphan | own)
      · exact .inl orphan.1
      · exact .inr own.1
    · rintro (orphan | own)
      · exact .inl ⟨orphan, rfl⟩
      · exact .inr ⟨own, by rw [own.2]; exact some_⟩
  · intro s _ orphan own
    rw [← own.2, orphan.2] at some_
    exact some_ rfl

theorem openCount_adopt_other (differs : other ≠ projectId) :
    openCount other (updateWhere (fun s => s.projectId = []) (Session.adopt projectId) sessions) ≤
      openCount other sessions := by
  rw [openCount, rowCount_updateWhere]
  apply List.countP_mono_left
  intro s _ opens
  rw [decide_eq_true_iff] at opens ⊢
  rw [openIn_adopt] at opens
  cases opens with
  | inl orphan => exact absurd orphan.2.symm differs
  | inr own => exact own.1

theorem adopt_empty :
    updateWhere (fun s : Session => s.projectId = []) (Session.adopt []) sessions = sessions := by
  rw [updateWhere]
  conv_rhs => rw [← List.map_id sessions]
  apply List.map_congr_left
  intro s _
  split
  · next orphan =>
    show { s with projectId := [] } = s
    rw [← orphan]
  · rfl

end

namespace SessionBoard
variable {Process : Type} [DecidableEq Process] {b b' : SessionBoard Process}

/-! ## Open sessions -/

theorem oneOpen_step {ev : SessionEvent Process} (one : b.OneOpen) (exclusive : b.Exclusive ev)
    (taken : b.step ev = some b') : b'.OneOpen := by
  cases ev with
  | look process projectId =>
    obtain ⟨-, rfl⟩ := of_unless taken
    rw [look]
    split
    · exact one
    · exact one
  | insert process sessionId title now =>
    obtain ⟨projectId, opening, taken⟩ := Option.bind_eq_some_iff.mp taken
    obtain ⟨-, rfl⟩ := of_unless taken
    intro other
    show openCount other (b.sessions ++ [_]) ≤ 1
    rw [openCount_append _ rfl]
    split
    · next same =>
      rw [← same, exclusive projectId opening]
    · exact one other
  | fail process =>
    cases taken
    exact one
  | startSession process sessionId title note projectId now =>
    obtain ⟨-, taken⟩ := Option.ite_none_left_eq_some.mp taken
    obtain ⟨-, rfl⟩ := of_unless taken
    intro other
    show openCount other (updateWhere _ _ b.sessions ++ [_]) ≤ 1
    rw [openCount_append _ rfl]
    split
    · next same =>
      rw [← same, openCount_closeOpen]
    · exact Nat.le_trans (openCount_close _ now) (one other)
  | closeSession process sessionId now =>
    obtain ⟨-, rfl⟩ := of_unless taken
    exact fun other => Nat.le_trans (openCount_close _ now) (one other)
  | adoptOrphans process projectId =>
    obtain ⟨-, rfl⟩ := of_unless taken
    intro other
    cases exclusive with
    | inl none_ =>
      rw [none_]
      show openCount other (updateWhere _ _ b.sessions) ≤ 1
      rw [adopt_empty]
      exact one other
    | inr few =>
      by_cases same : other = projectId
      · by_cases some_ : projectId = []
        · rw [some_]
          show openCount other (updateWhere _ _ b.sessions) ≤ 1
          rw [adopt_empty]
          exact one other
        · rw [same]
          exact Nat.le_trans (Nat.le_of_eq (openCount_adopt some_)) few
      · exact Nat.le_trans (openCount_adopt_other same) (one other)
  | claimNext process =>
    obtain ⟨-, rfl⟩ := of_unless taken
    exact one

theorem not_oneOpen_step {ev : SessionEvent Process} (not_ : ¬b.Exclusive ev)
    (taken : b.step ev = some b') : ¬b'.OneOpen := by
  intro one
  cases ev with
  | insert process sessionId title now =>
    apply not_
    intro projectId opening
    obtain ⟨projectId', opening', taken⟩ := Option.bind_eq_some_iff.mp taken
    rw [opening] at opening'
    obtain rfl := Option.some.inj opening'
    obtain ⟨-, rfl⟩ := of_unless taken
    have few : openCount projectId (b.sessions ++ [_]) ≤ 1 := one projectId
    rw [openCount_append _ rfl, if_pos rfl] at few
    omega
  | adoptOrphans process projectId =>
    obtain ⟨some_, many⟩ := not_or.mp not_
    obtain ⟨-, rfl⟩ := of_unless taken
    have few : openCount projectId (updateWhere _ _ b.sessions) ≤ 1 := one projectId
    rw [openCount_adopt some_] at few
    exact many few
  | _ => exact not_ trivial

omit [DecidableEq Process] in
theorem oneOpen_begins (begins : b.Begins) : b.OneOpen := by
  intro projectId
  by_cases none_ : projectId = []
  · rw [none_]
    exact begins.2.1
  · have zero : openCount projectId b.sessions = 0 := by
      apply rowCount_eq_zero.mpr
      intro s mem opens
      rw [← opens.2, begins.1 s mem] at none_
      exact none_ rfl
    omega

/-- At most one session of each project is open in every state of a run exactly if no process opens a
session that another one opened since it looked, and no open session is given to a project that has
one. -/
theorem oneOpen_iff (run : Run (SessionBoard.step : SessionBoard Process → _ → _) Always)
    (begins : (run.states 0).Begins) :
    (∀ n, (run.states n).OneOpen) ↔ ∀ n ev, run.events n = some ev → (run.states n).Exclusive ev :=
  run.holds_iff OneOpen OneOpen Exclusive (oneOpen_begins begins) (fun _ one => one)
    (fun _ _ _ one _ exclusive taken => oneOpen_step one exclusive taken)
    (fun _ _ _ _ _ not_ taken => not_oneOpen_step not_ taken)

/-! ## A single process -/

inductive Writer where
  | board
  | controlPlane
  deriving DecidableEq

def empty : SessionBoard Writer := { sessions := [], opening := fun _ => none }

/-- A message opens a session, and a fresh one is started for the next run. -/
def twoRuns : Run (SessionBoard.step : SessionBoard Writer → _ → _) Always :=
  .ofEvents
    [.look .board ['p'], .insert .board ['a'] [] 0, .startSession .board ['b'] [] [] ['p'] 1] empty
    { sessions := [⟨['a'], [], [], 0, some 1, ['p']⟩, ⟨['b'], [], [], 1, none, ['p']⟩]
      opening := Function.update (Function.update (fun _ => none) .board (some ['p'])) .board none }
    rfl

theorem begins_empty : empty.Begins :=
  ⟨fun _ mem => absurd mem List.not_mem_nil, Nat.zero_le _, fun _ => rfl⟩

theorem twoRuns_oneOpen : (twoRuns.states 3).OneOpen := by
  refine (oneOpen_iff twoRuns begins_empty).mpr (fun n ev event => ?_) 3
  have inside := (List.getElem?_eq_some_iff.mp event).1
  match n with
  | 0 =>
    rw [← Option.some.inj event]
    trivial
  | 1 =>
    rw [← Option.some.inj event]
    intro projectId opening
    rfl
  | 2 =>
    rw [← Option.some.inj event]
    trivial
  | n + 3 => exact absurd inside (by simp)

def bothOpen : SessionBoard Writer :=
  { sessions := [⟨['a'], [], [], 0, none, ['p']⟩, ⟨['b'], [], [], 1, none, ['p']⟩]
    opening := Function.update (Function.update (Function.update (Function.update (fun _ => none)
      .board (some ['p'])) .controlPlane (some ['p'])) .board none) .controlPlane none }

/-- The board and the control plane look for the open session of a project before one of them opens
it. -/
def lateOpening : Run (SessionBoard.step : SessionBoard Writer → _ → _) Always :=
  .ofEvents
    [.look .board ['p'], .look .controlPlane ['p'], .insert .board ['a'] [] 0,
      .insert .controlPlane ['b'] [] 1] empty bothOpen rfl

/-- Both sessions are open. -/
theorem lateOpening_twoOpen : (lateOpening.states 0).Begins ∧ ¬∀ n, (lateOpening.states n).OneOpen := by
  refine ⟨begins_empty, fun all => ?_⟩
  have last : lateOpening.states 4 = bothOpen := Run.ofEvents_last _ 4 (Nat.le_refl _)
  have few := all 4 ['p']
  rw [last] at few
  exact absurd few (by decide)

end SessionBoard

end FreeSwarm.Board
