import FreeSwarm.Foundation.Machine
import Mathlib.Algebra.Order.Ring.Rat
import Mathlib.Data.List.Nodup
import Mathlib.Data.List.Sort
import Mathlib.Logic.Function.Basic

/-!
# The records of the agents

Each agent posts records of its iterations. A post replaces its record whole and closes the running ones that started
before it. At most one runs as long as no post says that an iteration runs that is not the newest, or that was left for
another, and no restart loses changes.
-/

namespace FreeSwarm.Console.Activity

open FreeSwarm.Foundation

/-! ## Model -/

abbrev Text := List Char

structure Rec where
  id : Text
  status : Text
  startedAt : Option ℚ
  receivedAt : ℚ
  endedAt : Option ℚ
  pending : Option Text
  endReason : Option Text
  resumedFrom : Option Text
  resumedBy : Option Text
  deriving DecidableEq

def running : Text := "running".toList

/-- `started_at or 0`. -/
def Rec.start (r : Rec) : ℚ := r.startedAt.getD 0

def KEEP_RECORDS : Nat := 5

def FORGET_AFTER_S : ℚ := 7 * 86400

def SILENT_AFTER_S : ℚ := 3 * 3600

def SILENT_REASON : Text :=
  "the agent stopped reporting (no update for over 3 h): its runner is gone".toList

def RESUMED_REASON : Text :=
  "resumed: the swarm runner restarted mid-iteration and carried on from its checkpoint".toList

def NEWER_REASON : Text := "a newer iteration of this agent started (the swarm runner was restarted)".toList

/-- `_mark_resumed`. -/
def markResumed (by_ : Text) (r : Rec) : Rec :=
  { r with
    status := "resumed".toList, pending := none, endReason := some RESUMED_REASON, resumedBy := some by_
    endedAt := r.endedAt.or (some r.receivedAt) }

/-- `_abandon`. -/
def abandon (reason : Text) (r : Rec) : Rec :=
  { r with status := "interrupted".toList, endedAt := some r.receivedAt, pending := none, endReason := some reason }

/-- A record of another iteration that runs and started before. -/
def older (rec_ : Rec) (now : ℚ) (old : Rec) : Bool :=
  old.id ≠ rec_.id && old.status = running && old.start < (rec_.startedAt.filter (· ≠ 0)).getD now

def resumes (rec_ old : Rec) : Bool := rec_.resumedFrom = some old.id && old.status ≠ "resumed".toList

/-- What becomes of another record at a post. -/
def yield_ (rec_ : Rec) (now : ℚ) (old : Rec) : Rec :=
  let closed := if older rec_ now old then abandon NEWER_REASON old else old
  if resumes rec_ closed then markResumed rec_.id closed else closed

def posted (rec_ : Rec) (now : ℚ) (records : List Rec) : List Rec :=
  let recs := ((records.map (yield_ rec_ now)).filter (·.id ≠ rec_.id)) ++ [{ rec_ with receivedAt := now }]
  let sorted := recs.insertionSort fun r r' => r.start ≤ r'.start
  sorted.drop (sorted.length - KEEP_RECORDS)

/-- Those not heard of since are closed. -/
def closeBefore (before : ℚ) (reason : Text) (r : Rec) : Rec :=
  if r.status = running ∧ r.receivedAt < before then abandon reason r else r

structure Agent where
  records : List Rec
  updatedAt : ℚ
  deriving DecidableEq

variable {Key : Type} [DecidableEq Key]

structure Store (Key : Type) where
  agents : Key → Agent
  dirty : Key → Bool
  /-- The database. -/
  stored : Key → Agent
  /-- The iterations that were left for another, of old. -/
  left : Key → List Text

inductive Event (Key : Type) where
  | record (key : Key) (rec_ : Rec) (now : ℚ)
  /-- It flushes after, where it closed one. -/
  | closeStale (before : ℚ) (reason : Text)
  /-- Whether it could be written. -/
  | flush (now : ℚ) (written : Bool)
  | restart (now : ℚ)

namespace Store

variable (s : Store Key)

def closeAll (before : ℚ) (reason : Text) : Store Key :=
  { s with
    agents := fun k => { s.agents k with records := (s.agents k).records.map (closeBefore before reason) }
    dirty := fun k => s.dirty k || (s.agents k).records.any fun r => r.status = running ∧ r.receivedAt < before }

def flush (now : ℚ) (written : Bool) : Store Key :=
  let s := s.closeAll (now - SILENT_AFTER_S) SILENT_REASON
  { s with
    stored := fun k => if written && s.dirty k then s.agents k else s.stored k
    dirty := fun _ => false }

/-- The iterations that a post leaves for another. -/
def leaves (key : Key) (rec_ : Rec) (now : ℚ) : List Text :=
  (((s.agents key).records).filter fun old => yield_ rec_ now old ≠ old).map Rec.id

def step : Event Key → Option (Store Key)
  | .record key rec_ now =>
    if rec_.id = [] then some s
    else some { s with
      agents := Function.update s.agents key ⟨posted rec_ now (s.agents key).records, now⟩
      dirty := Function.update s.dirty key true
      left := Function.update s.left key (s.leaves key rec_ now ++ s.left key) }
  | .closeStale before reason => some (s.closeAll before reason)
  | .flush now written => some (s.flush now written)
  | .restart now => some { s with
      agents := fun k => if now - FORGET_AFTER_S < (s.stored k).updatedAt then s.stored k else ⟨[], 0⟩
      dirty := fun _ => false }

end Store

/-! ## Results -/

/-- At most one runs, and it is one that started last. -/
structure Shown (records : List Rec) : Prop where
  nodup : (records.map Rec.id).Nodup
  newest : ∀ r ∈ records, r.status = running → ∀ r' ∈ records, r'.id ≠ r.id → r'.status ≠ running ∧ r'.start ≤ r.start

variable (s : Store Key)

/-- What is shown, and that no iteration that was left for another runs again. -/
def Store.Kept : Prop :=
  ∀ k, Shown (s.agents k).records ∧ ∀ r ∈ (s.agents k).records, r.status = running → r.id ∉ s.left k

/-- What a post that says that an iteration runs is of: the newest one, that was not left for another. -/
structure InOrder (key : Key) (rec_ : Rec) : Prop where
  started : rec_.start ≠ 0
  present : rec_.id ∉ s.left key
  other : rec_.resumedFrom ≠ some rec_.id
  newest : ∀ old ∈ (s.agents key).records, old.id ≠ rec_.id →
    old.start ≤ rec_.start ∧ (old.status = running → old.start < rec_.start)

def Orderly : Event Key → Prop
  | .record key rec_ now => 0 ≤ now ∧ (rec_.status = running → InOrder s key rec_)
  | .restart _ => s.stored = s.agents
  | _ => True

variable {rec_ old : Rec} {now : ℚ} {records : List Rec}

@[simp] theorem yield_id : (yield_ rec_ now old).id = old.id := by
  simp only [yield_, abandon, markResumed]
  split <;> split <;> rfl

@[simp] theorem yield_start : (yield_ rec_ now old).start = old.start := by
  simp only [yield_, abandon, markResumed, Rec.start]
  split <;> split <;> rfl

theorem resumed_ne : "resumed".toList ≠ running := by decide

theorem interrupted_ne : "interrupted".toList ≠ running := by decide

theorem yield_running (runs : (yield_ rec_ now old).status = running) :
    yield_ rec_ now old = old ∧ older rec_ now old = false := by
  by_cases closes : older rec_ now old
  · simp only [yield_, closes, if_true] at runs
    split at runs
    · exact absurd runs resumed_ne
    · exact absurd runs interrupted_ne
  · by_cases left : resumes rec_ old
    · simp only [yield_, if_neg closes, if_pos left] at runs
      exact absurd runs resumed_ne
    · exact ⟨by rw [yield_, if_neg closes, if_neg left], Bool.eq_false_iff.mpr closes⟩

theorem mem_posted {r : Rec} (mem : r ∈ posted rec_ now records) :
    r = { rec_ with receivedAt := now } ∨ ∃ old ∈ records, old.id ≠ rec_.id ∧ r = yield_ rec_ now old := by
  have there := (List.perm_insertionSort _ _).mem_iff.mp (List.mem_of_mem_drop mem)
  rcases mem_concat there with before | new
  · obtain ⟨inside, other⟩ := List.mem_filter.mp before
    obtain ⟨old, here, rfl⟩ := List.mem_map.mp inside
    exact .inr ⟨old, here, by simpa using other, rfl⟩
  · exact .inl new

theorem nodup_posted (nodup : (records.map Rec.id).Nodup) : ((posted rec_ now records).map Rec.id).Nodup := by
  refine .sublist ((List.drop_sublist _ _).map _) (((List.perm_insertionSort _ _).map _).nodup_iff.mpr ?_)
  rw [List.map_append, List.nodup_append]
  refine ⟨.sublist (List.filter_sublist.map _) ?_, List.nodup_singleton _, ?_⟩
  · rw [List.map_map, List.map_congr_left fun old _ => show (Rec.id ∘ yield_ rec_ now) old = old.id from yield_id]
    exact nodup
  · intro id mem id' new same
    obtain ⟨r, inside, rfl⟩ := List.mem_map.mp mem
    rw [List.map_singleton, List.mem_singleton] at new
    exact of_decide_eq_true (List.mem_filter.mp inside).2 (same.trans new)

theorem start_of_ne_zero (ne : rec_.start ≠ 0) : (rec_.startedAt.filter (· ≠ 0)).getD now = rec_.start := by
  cases started : rec_.startedAt with
  | none => exact absurd (by rw [Rec.start, started]; rfl) ne
  | some t =>
    rw [Rec.start, started] at ne ⊢
    rw [Option.filter_some, if_pos (by simpa using ne)]
    rfl

theorem start_le (clock : 0 ≤ now) : rec_.start ≤ (rec_.startedAt.filter (· ≠ 0)).getD now := by
  by_cases zero : rec_.start = 0
  · rw [zero]
    cases kept : rec_.startedAt.filter (· ≠ 0) with
    | none => exact clock
    | some t =>
      obtain ⟨started, ne⟩ := Option.filter_eq_some_iff.mp kept
      rw [Rec.start, started] at zero
      exact absurd zero (of_decide_eq_true ne)
  · exact (start_of_ne_zero zero).ge

omit [DecidableEq Key] in
theorem Shown.posted {s : Store Key} {key : Key} (shown : Shown (s.agents key).records) (clock : 0 ≤ now)
    (order : rec_.status = running → InOrder s key rec_) : Shown (posted rec_ now (s.agents key).records) := by
  refine ⟨nodup_posted shown.nodup, fun r mem runs r' mem' other => ?_⟩
  rcases mem_posted mem with rfl | ⟨old, here, ne, rfl⟩
  · rcases mem_posted mem' with rfl | ⟨old', here', ne', rfl⟩
    · exact absurd rfl other
    · have newest := (order runs).newest old' here' ne'
      refine ⟨fun runs' => ?_, yield_start.trans_le newest.1⟩
      obtain ⟨same, kept⟩ := yield_running runs'
      rw [same] at runs'
      rw [older, start_of_ne_zero (order runs).started] at kept
      simp [ne', runs', newest.2 runs'] at kept
  · obtain ⟨same, kept⟩ := yield_running runs
    rw [same] at runs other ⊢
    rcases mem_posted mem' with rfl | ⟨old', here', ne', rfl⟩
    · have late : (rec_.startedAt.filter (· ≠ 0)).getD now ≤ old.start := by
        simpa [older, ne, runs] using kept
      refine ⟨fun runs' => ?_, (start_le clock).trans late⟩
      rw [start_of_ne_zero (order runs').started] at late
      exact absurd ((order runs').newest old here ne).2 (by simpa [runs] using late)
    · rw [yield_id] at other
      obtain ⟨idle, before⟩ := shown.newest old here runs old' here' other
      refine ⟨fun runs' => idle ?_, by rwa [yield_start]⟩
      rwa [(yield_running runs').1] at runs'

theorem Shown.map {f : Rec → Rec} (shown : Shown records) (id : ∀ r, (f r).id = r.id) (start : ∀ r, (f r).start = r.start)
    (runs : ∀ r, (f r).status = running → r.status = running) : Shown (records.map f) := by
  refine ⟨?_, ?_⟩
  · rw [List.map_map, List.map_congr_left fun r _ => show (Rec.id ∘ f) r = r.id from id r]
    exact shown.nodup
  · simp only [List.forall_mem_map, id, start]
    intro r mem run r' mem' other
    have := shown.newest r mem (runs r run) r' mem' other
    exact ⟨fun run' => this.1 (runs r' run'), this.2⟩

@[simp] theorem closeBefore_id (before : ℚ) (reason : Text) (r : Rec) : (closeBefore before reason r).id = r.id := by
  rw [closeBefore]
  split <;> rfl

theorem closeBefore_running {before : ℚ} {reason : Text} {r : Rec}
    (runs : (closeBefore before reason r).status = running) : closeBefore before reason r = r := by
  rw [closeBefore] at runs ⊢
  split
  next closes =>
    rw [if_pos closes] at runs
    exact absurd runs interrupted_ne
  next => rfl

variable {s s' : Store Key}

omit [DecidableEq Key] in
theorem Store.Kept.closeAll (kept : s.Kept) (before : ℚ) (reason : Text) : (s.closeAll before reason).Kept := by
  refine fun k => ⟨(kept k).1.map (closeBefore_id before reason) (fun r => ?_) fun r runs => ?_, fun r mem runs => ?_⟩
  · rw [closeBefore]
    split <;> rfl
  · rwa [closeBefore_running runs] at runs
  · obtain ⟨old, here, rfl⟩ := List.mem_map.mp mem
    have same := closeBefore_running runs
    rw [same] at runs ⊢
    exact (kept k).2 old here runs

theorem Store.Kept.record (kept : s.Kept) {key : Key} (clock : 0 ≤ now)
    (order : rec_.status = running → InOrder s key rec_)
    (taken : s.step (.record key rec_ now) = some s') : s'.Kept := by
  rw [Store.step] at taken
  split at taken
  · rwa [← Option.some.inj taken]
  cases taken
  intro k
  by_cases same : k = key
  · subst same
    simp only [Function.update_self]
    refine ⟨(kept k).1.posted clock order, fun r mem runs left => ?_⟩
    rcases List.mem_append.mp left with now_ | before
    · obtain ⟨old, inside, id⟩ := List.mem_map.mp now_
      obtain ⟨here, changed⟩ := List.mem_filter.mp inside
      have moved : yield_ rec_ now old ≠ old := by simpa using changed
      rcases mem_posted mem with rfl | ⟨old', here', _, rfl⟩
      · have order := order runs
        refine moved ?_
        have stays : older rec_ now old = false := by simp [older, (id : old.id = rec_.id)]
        have unnamed : resumes rec_ old = false := by
          simp only [resumes, (id : old.id = rec_.id), order.other, decide_false, Bool.false_and]
        simp [yield_, stays, unnamed]
      · obtain rfl := List.inj_on_of_nodup_map (kept k).1.nodup here here' (by simpa using id)
        exact moved (yield_running runs).1
    · rcases mem_posted mem with rfl | ⟨old', here', _, rfl⟩
      · exact (order runs).present before
      · have same := (yield_running runs).1
        rw [same] at runs before
        exact (kept k).2 old' here' runs before
  · simpa only [Function.update_of_ne same] using kept k

theorem Store.Kept.step (kept : s.Kept) {ev : Event Key} (orderly : Orderly s ev) (taken : s.step ev = some s') :
    s'.Kept := by
  cases ev with
  | record key rec_ now => exact kept.record orderly.1 orderly.2 taken
  | closeStale before reason =>
    cases taken
    exact kept.closeAll before reason
  | flush now written =>
    cases taken
    exact kept.closeAll (now - SILENT_AFTER_S) SILENT_REASON
  | restart now =>
    cases taken
    intro k
    dsimp only
    split
    · rw [(orderly : s.stored = s.agents)]
      exact kept k
    · exact ⟨⟨List.nodup_nil, fun _ mem => absurd mem List.not_mem_nil⟩, fun _ mem => absurd mem List.not_mem_nil⟩

def Store.empty : Store Key := ⟨fun _ => ⟨[], 0⟩, fun _ => false, fun _ => ⟨[], 0⟩, fun _ => []⟩

def iteration (id : Char) (start : ℚ) : Rec := ⟨[id], running, some start, 0, none, none, none, none, none⟩

end FreeSwarm.Console.Activity
