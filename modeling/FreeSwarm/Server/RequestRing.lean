import FreeSwarm.Foundation.FairRun
import Mathlib.Data.List.Basic

/-!
# The ring of requests

A bounded ring of the latest requests, which a client polls from the cursor of its last answer on.
-/

namespace FreeSwarm.Server

open FreeSwarm.Foundation

variable {Request : Type}

structure RequestRing (Request : Type) where
  capacity : Nat
  /-- `_buf`: each request with its place among all. -/
  buf : List (Nat × Request)
  next : Nat

namespace RequestRing
variable (ring : RequestRing Request)

def add (request : Request) : RequestRing Request :=
  { ring with
    buf := (ring.buf ++ [(ring.next, request)]).drop (ring.buf.length + 1 - ring.capacity)
    next := ring.next + 1 }

/-- `since`: some requests from the cursor on, and the cursor to poll with next. -/
def since (cursor limit : Nat) : List Request × Nat :=
  let matched := ring.buf.filter (cursor ≤ ·.1)
  let out := (matched.take limit).map Prod.snd
  -- the last entry that is returned, and the last of all if none is
  (out, if out.length < matched.length then
      matched[(out.length + matched.length - 1) % matched.length]?.elim ring.next (·.1 + 1)
    else ring.next)

/-- `list_requests`. -/
def listRequests (since : Nat) (limit : Int) : List Request × Nat :=
  ring.since since (max 1 (min limit 512)).toNat

/-! ## What it holds -/

/-- The entries of some requests, of which the first one has that place. -/
def entries (first : Nat) (requests : List Request) : List (Nat × Request) :=
  requests.mapIdx fun i request => (first + i, request)

variable {first cursor limit k : Nat} {requests added : List Request}

theorem entries_cons {request : Request} :
    entries first (request :: requests) = (first, request) :: entries (first + 1) requests := by
  simp [entries, List.mapIdx_cons, Nat.add_assoc, Nat.add_comm 1]

theorem map_entries : (entries first requests).map Prod.snd = requests :=
  List.ext_getElem? fun i => by simp [entries, Function.comp_def]

theorem drop_entries : (entries first requests).drop k = entries (first + k) (requests.drop k) := by
  induction requests generalizing first k with
  | nil => simp [entries]
  | cons request requests ih =>
    cases k with
    | zero => rfl
    | succ k =>
      rw [entries_cons, List.drop_succ_cons, ih, List.drop_succ_cons, Nat.add_assoc, Nat.add_comm 1]

theorem filter_entries :
    (entries first requests).filter (cursor ≤ ·.1) = (entries first requests).drop (cursor - first) := by
  induction requests generalizing first with
  | nil => simp [entries]
  | cons request requests ih =>
    rw [entries_cons, List.filter_cons, ih]
    by_cases le : cursor ≤ first
    · simp [le, Nat.le_succ_of_le le]
    · rw [if_neg (by simpa using le), show cursor - first = cursor - (first + 1) + 1 by omega,
        List.drop_succ_cons]

/-- The ring has the latest of the requests that were added. -/
structure Holds (added : List Request) : Prop where
  next : ring.next = added.length
  buf : ring.buf = (entries 0 added).drop (added.length - ring.capacity)

variable {ring}

theorem Holds.add (holds : ring.Holds added) (request : Request) :
    (ring.add request).Holds (added ++ [request]) where
  next := by simp [RequestRing.add, holds.next]
  buf := by
    have more : entries 0 (added ++ [request]) = entries 0 added ++ [(ring.next, request)] := by
      simp [entries, holds.next]
    have size : (entries 0 added).length = added.length := List.length_mapIdx
    rw [RequestRing.add, holds.buf, more, ← List.drop_append_of_le_length (by omega), List.drop_drop]
    simp only [List.length_drop, List.length_append, List.length_singleton, size]
    congr 1
    omega

/-- A poll returns the next requests that are still there. -/
theorem Holds.since (holds : ring.Holds added) (inside : cursor ≤ added.length) (some_ : 0 < limit) :
    let first := max cursor (added.length - ring.capacity)
    ring.since cursor limit =
      ((added.drop first).take limit, first + min limit (added.length - first)) := by
  intro first
  have matched : ring.buf.filter (cursor ≤ ·.1) = entries first (added.drop first) := by
    rw [holds.buf, drop_entries, filter_entries, ← drop_entries, List.drop_drop, drop_entries, Nat.zero_add,
      show added.length - ring.capacity + (cursor - (0 + (added.length - ring.capacity))) = first by omega]
  have out : ((entries first (added.drop first)).take limit).map Prod.snd =
      (added.drop first).take limit := by
    rw [List.map_take, map_entries]
  have size : (entries first (added.drop first)).length = added.length - first := by
    rw [entries, List.length_mapIdx, List.length_drop]
  simp only [RequestRing.since, matched, out, size, List.length_take, List.length_drop]
  congr 1
  split
  · rename_i less
    have last : (min limit (added.length - first) + (added.length - first) - 1) %
        (added.length - first) = limit - 1 := by
      rw [show min limit (added.length - first) + (added.length - first) - 1 =
        limit - 1 + (added.length - first) by omega, Nat.add_mod_right, Nat.mod_eq_of_lt (by omega)]
    have there : (added.drop first)[limit - 1]?.isSome := by
      simp
      omega
    obtain ⟨request, there⟩ := Option.isSome_iff_exists.mp there
    rw [last, entries, List.getElem?_mapIdx, there]
    change first + (limit - 1) + 1 = _
    omega
  · have := holds.next
    omega

end RequestRing

/-! ## A client -/

/-- What was added to the ring, and what a client has. -/
structure Polling (Request : Type) where
  ring : RequestRing Request
  added : List Request
  cursor : Nat
  got : List Request

inductive PollEvent (Request : Type) where
  | add (request : Request)
  | poll (limit : Int)

namespace Polling

def start (capacity : Nat) : Polling Request := ⟨⟨capacity, [], 0⟩, [], 0, []⟩

def step (s : Polling Request) : PollEvent Request → Option (Polling Request)
  | .add request => some { s with ring := s.ring.add request, added := s.added ++ [request] }
  | .poll limit =>
    let (entries, nextCursor) := s.ring.listRequests s.cursor limit
    some { s with cursor := nextCursor, got := s.got ++ entries }

/-- The client has each request before its cursor, once and in order. -/
def Complete (s : Polling Request) : Prop := s.got = s.added.take s.cursor

/-- A client polls before a request that it does not have is dropped from the ring. -/
def InTime (s : Polling Request) : PollEvent Request → Prop
  | .add _ => True
  | .poll _ => s.added.length ≤ s.cursor + s.ring.capacity

/-- The ring has the latest requests, and the cursor is at one of them all or behind them. -/
structure Inv (s : Polling Request) : Prop where
  holds : s.ring.Holds s.added
  inside : s.cursor ≤ s.added.length

variable {s s' : Polling Request} {ev : PollEvent Request} {capacity : Nat}

theorem inv_start : (start capacity : Polling Request).Inv :=
  ⟨⟨rfl, List.drop_nil.symm⟩, Nat.le_refl _⟩

/-- A poll takes some of the requests that it does not have and that are still there. -/
theorem Inv.poll (inv : s.Inv) {limit : Int} (taken : s.step (.poll limit) = some s') :
    ∃ first k, first = max s.cursor (s.added.length - s.ring.capacity) ∧ 0 < k ∧
      s' = { s with cursor := first + min k (s.added.length - first)
                    got := s.got ++ (s.added.drop first).take k } := by
  refine ⟨_, (max 1 (min limit 512)).toNat, rfl, by omega, ?_⟩
  rw [step, RequestRing.listRequests, inv.holds.since inv.inside (by omega)] at taken
  exact (Option.some.inj taken).symm

theorem Inv.step (inv : s.Inv) (taken : s.step ev = some s') : s'.Inv := by
  have inside := inv.inside
  cases ev with
  | add request =>
    cases taken
    refine ⟨inv.holds.add request, ?_⟩
    rw [List.length_append]
    exact Nat.le_add_right_of_le inside
  | poll limit =>
    obtain ⟨first, k, place, -, rfl⟩ := inv.poll taken
    exact ⟨inv.holds, by simp only; omega⟩

theorem Inv.complete (inv : s.Inv) (complete : s.Complete) (inTime : s.InTime ev)
    (taken : s.step ev = some s') : s'.Complete := by
  cases ev with
  | add request =>
    cases taken
    rw [Complete, List.take_append_of_le_length inv.inside]
    exact complete
  | poll limit =>
    obtain ⟨first, k, place, -, rfl⟩ := inv.poll taken
    have inTime : s.added.length ≤ s.cursor + s.ring.capacity := inTime
    obtain rfl : first = s.cursor := by omega
    have same : (s.added.drop s.cursor).take k = _ := List.take_eq_take_min
    rw [List.length_drop] at same
    rw [Complete, List.take_add, ← complete, same]

theorem Inv.not_complete (inv : s.Inv) (complete : s.Complete) (late : ¬s.InTime ev)
    (taken : s.step ev = some s') : ¬s'.Complete := by
  have inside := inv.inside
  cases ev with
  | add request => exact absurd trivial late
  | poll limit =>
    obtain ⟨first, k, place, -, rfl⟩ := inv.poll taken
    have late : ¬s.added.length ≤ s.cursor + s.ring.capacity := late
    intro complete'
    have before := congrArg List.length complete
    have after := congrArg List.length complete'
    simp only [List.length_append, List.length_take, List.length_drop] at before after
    omega

/-- In each run, whatever limits a client asks for, it has in all states each request before its cursor
exactly if it polls in time, and each poll moves its cursor on while there are more. -/
theorem polled_iff (run : Run (step : Polling Request → _ → _) Always)
    (begins : run.states 0 = start capacity) :
    ((∀ n, (run.states n).Complete) ↔ ∀ n ev, run.events n = some ev → (run.states n).InTime ev) ∧
    ∀ n limit, run.events n = some (.poll limit) → (run.states n).cursor < (run.states n).added.length →
      (run.states n).cursor < (run.states (n + 1)).cursor := by
  constructor
  · exact run.holds_iff (fun s => s.Inv ∧ s.Complete) Complete InTime (begins ▸ ⟨inv_start, rfl⟩)
      (fun _ kept => kept.2)
      (fun _ _ _ kept _ inTime taken => ⟨kept.1.step taken, kept.1.complete kept.2 inTime taken⟩)
      (fun _ _ _ kept _ late taken => kept.1.not_complete kept.2 late taken)
  · intro n limit event more
    have inv := (run.reaches n).invariant Inv (begins ▸ inv_start) fun _ _ _ inv _ taken => inv.step taken
    have taken := run.taken n
    rw [event] at taken
    obtain ⟨first, k, place, some_, same⟩ := inv.poll taken
    rw [same]
    simp only
    omega

/-- A ring of one drops a request that the client did not poll. -/
theorem polled_late : ∃ run : Run (step : Polling Nat → _ → _) Always,
    run.states 0 = start 1 ∧ (run.states 3).got = [8] ∧ ¬∀ n, (run.states n).Complete := by
  let late : Run (step : Polling Nat → _ → _) Always :=
    .ofEvents [.add 7, .add 8, .poll 1] (start 1) ⟨⟨1, [(1, 8)], 2⟩, [7, 8], 2, [8]⟩ rfl
  refine ⟨late, rfl, rfl, fun all => ?_⟩
  have inTime : 2 ≤ 0 + 1 := (polled_iff late rfl).1.mp all 2 (.poll 1) rfl
  exact absurd inTime (by decide)

end Polling

end FreeSwarm.Server
