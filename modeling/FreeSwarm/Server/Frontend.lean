import FreeSwarm.Foundation.FairRun
import FreeSwarm.Server.Generation

/-!
# The replies of the frontend and their consumers

The frontend gives each request a uid, a list of pending replies and an event. The listener appends the
replies that arrive and sets the event. A consumer of `wait_for_ack` takes the pending list away each
time the event is set, and yields its replies one by one. Its cleanup removes both entries; so does
`abort_user`, which sleeps first. All of this runs on one event loop, which may change between these at
each `await`; what lies between two of them is one step here.
-/

namespace FreeSwarm.Server.FrontendManager

open FreeSwarm.Foundation

/-- What the server is doing. Requests are admitted only while it serves. -/
inductive MaintenanceState where
  | loading
  | serving
  | rebuilding
  | stopping
  | failed
deriving DecidableEq, Repr

/-- Where a consumer of `wait_for_ack` is. -/
inductive Consumer where
  | idle
  | waiting
  /-- The generator is suspended at its `yield`, with the rest of the list that it took. -/
  | yielding (ack : UserReply) (pending : List UserReply)
  | closing
  | closed
  | dropped
  | failed

/-- What the frontend holds for one uid, and what happened to it so far. -/
structure Session where
  /-- The pending replies, when `ack_map` has an entry. -/
  ackMap : Option (List UserReply)
  /-- `event_map` has an entry. -/
  eventMap : Bool
  /-- The event is set. The consumer holds it, whether it is in `event_map` or not. -/
  event : Bool
  inflight : Bool
  /-- The calls of `abort_user` that are asleep. -/
  aborts : Nat
  consumer : Consumer
  cancelled : Bool
  /-- A call of `abort_user` was completed. -/
  aborted : Bool
  arrived : List UserReply
  received : List UserReply

/-- What may happen to one uid, the arrival of replies apart. -/
inductive Act where
  | start
  | wake
  | next
  | stop
  | cancel
  | close
  /-- `abort_user` is called. -/
  | abort
  /-- A call of `abort_user` wakes up, removes the entries and sends its message. -/
  | delete
deriving DecidableEq

namespace Session

/-- A new uid. -/
def fresh : Session :=
  { ackMap := some [], eventMap := true, event := false, inflight := true, aborts := 0
    consumer := .idle, cancelled := false, aborted := false, arrived := [], received := [] }

variable (s : Session)

/-- Both entries are removed, if they are there. -/
def pop : Session := { s with ackMap := none, eventMap := false }

def yield (ack : UserReply) (pending : List UserReply) : Session :=
  { s with consumer := .yielding ack pending, received := s.received ++ [ack] }

/-- The consumer takes its first step in `wait_for_ack`, up to the wait for the event. -/
def start : Option Session :=
  match s.consumer with
  | .idle => some { s with consumer := if s.eventMap then .waiting else .failed }
  | _ => none

/-- The consumer wakes up: it clears the event, takes the pending list and yields its first reply. An
entry that is missing makes it fail, after its cleanup. -/
def wake : Option Session :=
  match s.consumer with
  | .waiting =>
    if s.event then
      match s.ackMap with
      | none => some { s with event := false, consumer := .failed }.pop
      | some [] => some { s with event := false, ackMap := some [] }
      | some (ack :: pending) =>
        some ({ s with event := false, ackMap := some [] }.yield ack pending)
    else none
  | _ => none

/-- The consumer asks for the next reply. Behind the list that was taken, a terminal reply ends the
generator, and another one makes it wait again. A consumer stops at the terminal reply. -/
def next : Option Session :=
  match s.consumer with
  | .yielding ack (later :: pending) => if ack.finished then none else some (s.yield later pending)
  | .yielding ack [] =>
    if ack.finished then some { s with consumer := .closed }.pop
    else some { s with consumer := .waiting }
  | _ => none

/-- The consumer leaves its loop at the terminal reply. -/
def stop : Option Session :=
  match s.consumer with
  | .yielding ack _ => if ack.finished then some { s with consumer := .closing } else none
  | _ => none

/-- The consumer is cancelled. At the wait this runs the cleanup; at a `yield` the generator is left;
before the first step there is nothing to clean up. -/
def cancel : Option Session :=
  match s.consumer with
  | .idle => some { s with consumer := .dropped, cancelled := true }
  | .waiting => some { s with consumer := .closed, cancelled := true }.pop
  | .yielding _ _ => some { s with consumer := .closing, cancelled := true }
  | _ => none

/-- The cleanup of the generator that was left. -/
def close : Option Session :=
  match s.consumer with
  | .closing => some { s with consumer := .closed }.pop
  | _ => none

/-- `abort_user` is called, and sleeps. -/
def abort : Session := { s with aborts := s.aborts + 1 }

/-- A call of `abort_user` wakes up. -/
def delete : Option Session :=
  if 0 < s.aborts then some { s with aborts := s.aborts - 1, aborted := true }.pop else none

/-- What happens to one uid. -/
def act : Act → Option Session
  | .start => s.start
  | .wake => s.wake
  | .next => s.next
  | .stop => s.stop
  | .cancel => s.cancel
  | .close => s.close
  | .abort => some s.abort
  | .delete => s.delete

def observe (reply : UserReply) : Session :=
  { s with inflight := s.inflight && !reply.finished, arrived := s.arrived ++ [reply] }

/-- The listener gets a reply of the uid, which is discarded when `ack_map` has no entry. It fails when
only the entry of `event_map` is missing. -/
def listen (reply : UserReply) : Option Session :=
  match s.ackMap with
  | none => some (s.observe reply)
  | some pending =>
    if s.eventMap then some { s.observe reply with ackMap := some (pending ++ [reply]), event := true }
    else none

end Session

/-- The frontend. The uids are given in order, so that the session of a uid is at its place. -/
structure Frontend where
  maintenanceState : MaintenanceState
  listening : Bool
  /-- A call of `prepare_stop_accounting` waits for the requests in flight. -/
  preparing : Bool
  sessions : List Session

/-- The server is started. -/
def initial : Frontend :=
  { maintenanceState := .loading, listening := true, preparing := false, sessions := [] }

/-- What happens to the frontend. -/
inductive Event where
  | newUser
  | maintain (state : MaintenanceState)
  | prepareStop
  | drained
  | abortInflight
  | arrive (uid : Nat) (reply : UserReply)
  | act (uid : Nat) (act : Act)

namespace Frontend

variable (f : Frontend)

/-- A uid is given, while the server serves. -/
def newUser : Option Frontend :=
  if f.maintenanceState = .serving then some { f with sessions := f.sessions ++ [.fresh] } else none

/-- `prepare_stop_accounting` closes the admission, unless the caches are being rebuilt. -/
def prepareStop : Option Frontend :=
  if f.preparing || f.maintenanceState = .rebuilding then none
  else some { f with maintenanceState := .stopping, preparing := true }

/-- No request is in flight. -/
def drained : Option Frontend :=
  if f.preparing && f.sessions.all (!·.inflight) then some { f with preparing := false } else none

/-- After the time to drain, every request in flight is aborted. -/
def abortInflight : Option Frontend :=
  if f.preparing then
    some { f with
      preparing := false, sessions := f.sessions.map fun s => if s.inflight then s.abort else s }
  else none

def arrive (uid : Nat) (reply : UserReply) : Option Frontend :=
  if f.listening then
    match f.sessions[uid]? with
    | none => some f
    | some s =>
      match s.listen reply with
      | none => some { f with listening := false }
      | some s' => some { f with sessions := f.sessions.set uid s' }
  else none

def act (f : Frontend) (uid : Nat) (act : Act) : Option Frontend :=
  f.sessions[uid]?.bind fun s => (s.act act).map fun s' => { f with sessions := f.sessions.set uid s' }

def step : Event → Option Frontend
  | .newUser => f.newUser
  | .maintain state => some { f with maintenanceState := state }
  | .prepareStop => f.prepareStop
  | .drained => f.drained
  | .abortInflight => f.abortInflight
  | .arrive uid reply => f.arrive uid reply
  | .act uid act => f.act uid act

end Frontend

/-! ## What may happen to a session -/

/-- What a step of the frontend may do to a session. -/
inductive Session.Moves (uid : Nat) (ev : Event) (s : Session) : Session → Prop
  | stays (others : ∀ act, ev ≠ .act uid act) : Moves uid ev s s
  | acts {s' : Session} (act : Act) (event : ev = .act uid act) (acts : s.act act = some s') :
      Moves uid ev s s'
  /-- A call of `abort_user`. -/
  | aborts (event : ev = .abortInflight) : Moves uid ev s s.abort
  | arrives {s' : Session} (reply : UserReply) (event : ev = .arrive uid reply)
      (arrives : s.listen reply = some s') : Moves uid ev s s'

namespace Frontend

variable {f f' : Frontend} {ev : Event}

theorem moves (taken : f.step ev = some f') {uid : Nat} {s : Session}
    (here : f.sessions[uid]? = some s) :
    ∃ s', f'.sessions[uid]? = some s' ∧ s.Moves uid ev s' := by
  have inside := (List.getElem?_eq_some_iff.mp here).1
  cases ev with
  | newUser =>
    simp only [step, newUser, Option.ite_none_right_eq_some, Option.some.injEq] at taken
    rw [← taken.2]
    exact ⟨s, by rw [List.getElem?_append_left inside, here], .stays (by simp)⟩
  | maintain state =>
    cases taken
    exact ⟨s, here, .stays (by simp)⟩
  | prepareStop =>
    simp only [step, prepareStop, Option.ite_none_left_eq_some, Option.some.injEq] at taken
    rw [← taken.2]
    exact ⟨s, here, .stays (by simp)⟩
  | drained =>
    simp only [step, drained, Option.ite_none_right_eq_some, Option.some.injEq] at taken
    rw [← taken.2]
    exact ⟨s, here, .stays (by simp)⟩
  | abortInflight =>
    simp only [step, abortInflight, Option.ite_none_right_eq_some, Option.some.injEq] at taken
    rw [← taken.2]
    simp only [List.getElem?_map, here, Option.map_some, Option.some.injEq, exists_eq_left']
    split
    · exact .aborts rfl
    · exact .stays (by simp)
  | arrive uid' reply =>
    simp only [step, arrive, Option.ite_none_right_eq_some] at taken
    obtain ⟨-, taken⟩ := taken
    by_cases same : uid' = uid
    · subst same
      rw [here] at taken
      dsimp only at taken
      cases heard : s.listen reply with
      | none =>
        rw [heard] at taken
        cases taken
        exact ⟨s, here, .stays (by simp)⟩
      | some s' =>
        rw [heard] at taken
        cases taken
        exact ⟨s', List.getElem?_set_self inside, .arrives reply rfl heard⟩
    · refine ⟨s, ?_, .stays (by simp)⟩
      cases other : f.sessions[uid']? with
      | none =>
        rw [other] at taken
        cases taken
        exact here
      | some t =>
        rw [other] at taken
        dsimp only at taken
        split at taken
        · cases taken
          exact here
        · rw [← Option.some.inj taken, List.getElem?_set_ne same]
          exact here
  | act uid' act =>
    obtain ⟨t, other, taken⟩ := Option.bind_eq_some_iff.mp taken
    obtain ⟨t', acts, taken⟩ := Option.map_eq_some_iff.mp taken
    rw [← taken]
    by_cases same : uid' = uid
    · subst same
      rw [here] at other
      cases other
      exact ⟨t', List.getElem?_set_self inside, .acts act rfl acts⟩
    · refine ⟨s, ?_, .stays fun act' event => same (Event.act.inj event).1⟩
      rw [List.getElem?_set_ne same, here]

theorem appears (taken : f.step ev = some f') {uid : Nat} {s' : Session}
    (before : f.sessions[uid]? = none) (there : f'.sessions[uid]? = some s') : s' = .fresh := by
  have outside := List.getElem?_eq_none_iff.mp before
  have inside := (List.getElem?_eq_some_iff.mp there).1
  -- only a new request makes more sessions
  have longer : f.sessions.length < f'.sessions.length := by omega
  cases ev with
  | newUser =>
    simp only [step, newUser, Option.ite_none_right_eq_some, Option.some.injEq] at taken
    rw [← taken.2, List.getElem?_append_right outside, List.getElem?_singleton] at there
    exact (Option.some.inj (Option.ite_none_right_eq_some.mp there).2).symm
  | maintain state =>
    rw [← Option.some.inj taken] at longer
    exact absurd longer (Nat.lt_irrefl _)
  | prepareStop =>
    simp only [step, prepareStop, Option.ite_none_left_eq_some, Option.some.injEq] at taken
    rw [← taken.2] at longer
    exact absurd longer (Nat.lt_irrefl _)
  | drained =>
    simp only [step, drained, Option.ite_none_right_eq_some, Option.some.injEq] at taken
    rw [← taken.2] at longer
    exact absurd longer (Nat.lt_irrefl _)
  | abortInflight =>
    simp only [step, abortInflight, Option.ite_none_right_eq_some, Option.some.injEq] at taken
    rw [← taken.2, List.length_map] at longer
    exact absurd longer (Nat.lt_irrefl _)
  | arrive uid' reply =>
    simp only [step, arrive, Option.ite_none_right_eq_some] at taken
    obtain ⟨-, taken⟩ := taken
    split at taken
    · rw [← Option.some.inj taken] at longer
      exact absurd longer (Nat.lt_irrefl _)
    · split at taken
      · rw [← Option.some.inj taken] at longer
        exact absurd longer (Nat.lt_irrefl _)
      · rw [← Option.some.inj taken, List.length_set] at longer
        exact absurd longer (Nat.lt_irrefl _)
  | act uid' act =>
    obtain ⟨t, -, taken⟩ := Option.bind_eq_some_iff.mp taken
    obtain ⟨t', -, taken⟩ := Option.map_eq_some_iff.mp taken
    rw [← taken, List.length_set] at longer
    exact absurd longer (Nat.lt_irrefl _)

end Frontend

end FreeSwarm.Server.FrontendManager
