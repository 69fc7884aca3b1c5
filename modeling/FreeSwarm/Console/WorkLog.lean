import FreeSwarm.Foundation.Dict
import FreeSwarm.Foundation.Text
import Mathlib.Data.Rat.Defs
import Mathlib.Algebra.Order.Ring.Unbundled.Rat

/-!
# The work log

The versions of an iteration record are archived in batches, in any order. The row of an iteration is
replaced by a version that was heard later, and a row that still runs is closed in place when a batch closes
an older version of it. So the row that remains has the content of a newest version. It runs exactly if a
batch brought a version that was heard later than all before it, and nothing was closed in that batch or in a
later one.
-/

namespace FreeSwarm.Console

open FreeSwarm.Foundation

abbrev Text : Type := List Char

variable (Content : Type)

/-- What an iteration did, which closing it leaves as it is. -/
structure Work where
  startedAt : Option ℚ
  /-- `received_at`: when it was last heard. -/
  receivedAt : Option ℚ
  /-- `submissions`, by their `status`. -/
  submissions : List Text
  content : Content
  deriving DecidableEq

structure IterationRecord where
  id : Text
  status : Text
  endedAt : Option ℚ
  pending : Option Text
  endReason : Option Text
  reason : Option Text
  outcome : Option Text
  work : Work Content
  deriving DecidableEq

structure AgentMeta where
  projectId : Option Text
  agent : Text
  model : Text
  role : Text
  deriving DecidableEq

/-- A row of `iterations`. The columns that only repeat the record or sum it up are left out. -/
structure WorkRow where
  id : Text
  /-- `project_id`, `agent`, `model` and `role`. -/
  agent : AgentMeta
  started : Option ℚ
  ended : Option ℚ
  status : Text
  outcome : Text
  /-- `updated_at`: when the version was last heard. -/
  updatedAt : ℚ
  record : IterationRecord Content
  deriving DecidableEq

/-- The status of an iteration that runs. -/
def running : Text := "running".toList

variable {Content : Type}

/-- `_outcome`. -/
def outcomeOf (rec : IterationRecord Content) : Text :=
  if rec.status = running then running
  else if rec.work.submissions ≠ [] then
    if "ok".toList ∈ rec.work.submissions then "ok".toList else "error".toList
  else if rec.status = "interrupted".toList ∨ rec.status = "stopped".toList then "interrupted".toList
  else if rec.status = "resumed".toList then "resumed".toList
  else if rec.status = "no submission".toList then "no_submission".toList
  else "done".toList

/-- `_rows`: the row of a version, at some time. -/
def rowOf (now : ℚ) (agent : AgentMeta) (rec : IterationRecord Content) : WorkRow Content where
  id := rec.id
  agent := agent
  started := rec.work.startedAt
  ended := rec.endedAt
  status := rec.status
  outcome := outcomeOf rec
  -- a time of 0 counts as none
  updatedAt := (((rec.work.receivedAt.filter (· ≠ 0)).or (rec.work.startedAt.filter (· ≠ 0))).getD now)
  record := rec

/-- Versions of some agents' records that are archived at a time. -/
structure Batch (Content : Type) where
  now : ℚ
  items : List (AgentMeta × List (IterationRecord Content))

/-- `_rows`: the rows of a batch. -/
def Batch.rows (batch : Batch Content) : List (WorkRow Content) :=
  batch.items.flatMap fun item =>
    (item.2.filter fun rec => rec.id ≠ []).map (rowOf batch.now item.1)

def Batch.versions (batch : Batch Content) (id : Text) : List (WorkRow Content) :=
  batch.rows.filter fun row => row.id = id

namespace WorkRow

variable (row : WorkRow Content)

def Runs : Prop := row.status = running

instance decidableRuns (row : WorkRow Content) : Decidable row.Runs :=
  inferInstanceAs (Decidable (row.status = running))

/-- `_UPSERT`: a version that replaces a row. The one that was heard later wins, and on a tie a row that was
closed is not opened again. -/
def Supersedes (excluded row : WorkRow Content) : Prop :=
  row.updatedAt < excluded.updatedAt ∨
    excluded.updatedAt = row.updatedAt ∧ ¬(excluded.Runs ∧ ¬row.Runs)

instance decidableSupersedes (excluded row : WorkRow Content) : Decidable (excluded.Supersedes row) :=
  inferInstanceAs (Decidable (_ ∨ _))

/-- `_close_in_place`: the row is closed, with all that was recorded. -/
def closeInPlace (status : Text) (endReason : Option Text) (endedAt : Option ℚ)
    (reason outcome : Option Text) : WorkRow Content :=
  let rec' : IterationRecord Content :=
    { row.record with
      status := status
      endedAt := endedAt
      pending := none
      endReason := (endReason.filter (· ≠ [])).or row.record.endReason
      reason := reason.or row.record.reason
      outcome := outcome.or row.record.outcome }
  { row with ended := endedAt, status := status, outcome := outcomeOf rec', record := rec' }

/-- `_close_superseded`: a row that runs is closed as an older version of it was. -/
def closeAs (row closed : WorkRow Content) : WorkRow Content :=
  let ended := max (closed.record.endedAt.getD 0) row.updatedAt
  row.closeInPlace closed.status closed.record.endReason (if ended = 0 then none else some ended)
    closed.record.reason closed.record.outcome

/-- `RETENTION_S` has passed since the iteration ended, or started, or was heard. -/
def Expired (now : ℚ) : Prop :=
  (row.ended.or row.started).getD row.updatedAt < now - 30 * 86400

instance decidableExpired (row : WorkRow Content) (now : ℚ) : Decidable (row.Expired now) :=
  inferInstanceAs (Decidable (_ < _))

end WorkRow

/-- The rows by their ids. -/
abbrev Iterations (Content : Type) : Type := Dict Text (WorkRow Content)

variable (rows : Iterations Content)

def upsert (excluded : WorkRow Content) : Iterations Content :=
  match rows.get? excluded.id with
  | none => rows.set excluded.id excluded
  | some row => if excluded.Supersedes row then rows.set excluded.id excluded else rows

/-- `closing`: the last version of an iteration that is closed. -/
def closing (versions : List (WorkRow Content)) (id : Text) : Option (WorkRow Content) :=
  (versions.filter fun version => version.id = id ∧ ¬version.Runs).getLast?

def closeSuperseded (versions : List (WorkRow Content)) : Iterations Content :=
  rows.map fun id row => if row.Runs then (closing versions id).elim row row.closeAs else row

/-- `close_running`: what runs and was not heard since a time is closed. -/
def closeRunning (before : ℚ) (reason : Text) : Iterations Content :=
  rows.map fun _ row =>
    if row.Runs ∧ row.updatedAt < before then
      row.closeInPlace "interrupted".toList (some reason) (some row.updatedAt) none none
    else row

structure WorkLog (Content : Type) where
  iterations : Iterations Content
  lastPrune : ℚ

namespace WorkLog

variable (log : WorkLog Content) (batch : Batch Content)

def merge : Iterations Content :=
  closeSuperseded (batch.rows.foldl upsert log.iterations) batch.rows

/-- Old rows are deleted with the batch. -/
def Prunes : Prop :=
  batch.rows ≠ [] ∧ 3600 < batch.now - log.lastPrune

instance decidablePrunes (log : WorkLog Content) (batch : Batch Content) : Decidable (log.Prunes batch) :=
  match rows : batch.rows with
  | [] => .isFalse fun prunes => prunes.1 rows
  | _ :: _ =>
    decidable_of_iff (3600 < batch.now - log.lastPrune)
      ⟨fun due => ⟨by simp [rows], due⟩, And.right⟩

def archive : WorkLog Content :=
  if log.Prunes batch then
    ⟨(log.merge batch).filter fun _ row => ¬row.Expired batch.now, batch.now⟩
  else ⟨log.merge batch, log.lastPrune⟩

def ofBatches (batches : List (Batch Content)) : WorkLog Content :=
  batches.foldl archive ⟨.empty, 0⟩

end WorkLog

/-! ## One iteration -/

section

variable {row row' version : WorkRow Content} {rows : Iterations Content} {id : Text}
  {versions : List (WorkRow Content)}

/-- `_UPSERT`, for the row of one iteration. -/
def upsertRow (row : Option (WorkRow Content)) (excluded : WorkRow Content) : Option (WorkRow Content) :=
  match row with
  | none => some excluded
  | some row => some (if excluded.Supersedes row then excluded else row)

theorem get?_upsert : (upsert rows version).get? id =
    if version.id = id then upsertRow (rows.get? id) version else rows.get? id := by
  by_cases here : version.id = id
  · subst here
    rw [if_pos rfl, upsert]
    cases found : rows.get? version.id with
    | none => exact Dict.get?_set_self
    | some row =>
      simp only [upsertRow]
      split_ifs
      · exact Dict.get?_set_self
      · exact found
  · rw [if_neg here, upsert]
    have other : id ≠ version.id := Ne.symm here
    split
    · exact Dict.get?_set_of_ne other
    · split_ifs
      · exact Dict.get?_set_of_ne other
      · rfl

theorem get?_foldl_upsert : (versions.foldl upsert rows).get? id =
    (versions.filter fun version => version.id = id).foldl upsertRow (rows.get? id) := by
  induction versions generalizing rows with
  | nil => rfl
  | cons version versions ih =>
    rw [List.foldl_cons, ih, get?_upsert, List.filter_cons]
    by_cases here : version.id = id
    · rw [if_pos here, if_pos (by simpa using here), List.foldl_cons]
    · rw [if_neg here, if_neg (by simpa using here)]

def lastClosed (versions : List (WorkRow Content)) : Option (WorkRow Content) :=
  (versions.filter fun version => ¬version.Runs).getLast?

def mergeRow (row : Option (WorkRow Content)) (versions : List (WorkRow Content)) :
    Option (WorkRow Content) :=
  (versions.foldl upsertRow row).map fun row =>
    if row.Runs then (lastClosed versions).elim row row.closeAs else row

theorem get?_merge (log : WorkLog Content) (batch : Batch Content) :
    (log.merge batch).get? id = mergeRow (log.iterations.get? id) (batch.versions id) := by
  have same : closing batch.rows id = lastClosed (batch.versions id) := by
    rw [closing, lastClosed, Batch.versions, List.filter_filter]
    congr 2
    funext version
    simp [Bool.and_comm]
  rw [WorkLog.merge, closeSuperseded, Dict.get?_map, get?_foldl_upsert, mergeRow]
  rw [same, Batch.versions]

/-! ## What the row of an iteration has -/

structure ClosedFrom (row version : WorkRow Content) : Prop where
  closed : ¬row.Runs
  id : row.id = version.id
  agent : row.agent = version.agent
  started : row.started = version.started
  updatedAt : row.updatedAt = version.updatedAt
  work : row.record.work = version.record.work

def Newest (versions : List (WorkRow Content)) (version : WorkRow Content) : Prop :=
  version ∈ versions ∧ ∀ other ∈ versions, other.updatedAt ≤ version.updatedAt

/-- The row is one of the newest versions, a closed one if there is one, or was closed in place. -/
def Reflects (versions : List (WorkRow Content)) (row : WorkRow Content) : Prop :=
  ∃ version, Newest versions version ∧
    (version.Runs → ∀ other, Newest versions other → other.Runs) ∧
      (row = version ∨ version.Runs ∧ ClosedFrom row version)

def Mirrors (versions : List (WorkRow Content)) : Option (WorkRow Content) → Prop
  | none => versions = []
  | some row => Reflects versions row

theorem Reflects.updatedAt_le (reflects : Reflects versions row) {other : WorkRow Content}
    (mem : other ∈ versions) : other.updatedAt ≤ row.updatedAt := by
  obtain ⟨version, newest, -, rfl | ⟨-, closed⟩⟩ := reflects
  · exact newest.2 other mem
  · rw [closed.updatedAt]
    exact newest.2 other mem

theorem newest_concat_of_later (later : ∀ other ∈ versions, other.updatedAt < version.updatedAt)
    {other : WorkRow Content} (newest : Newest (versions ++ [version]) other) : other = version := by
  obtain ⟨mem, latest⟩ := newest
  obtain before | last := List.mem_append.mp mem
  · exact absurd (latest version (by simp)) (not_le.mpr (later other before))
  · exact List.mem_singleton.mp last

theorem Newest.concat {newest : WorkRow Content} (is_ : Newest versions newest)
    (earlier : version.updatedAt ≤ newest.updatedAt) : Newest (versions ++ [version]) newest := by
  refine ⟨List.mem_append_left _ is_.1, fun other mem => ?_⟩
  obtain before | last := List.mem_append.mp mem
  · exact is_.2 other before
  · rw [List.mem_singleton.mp last]
    exact earlier

theorem mirrors_upsert {row : Option (WorkRow Content)} (mirrors : Mirrors versions row) :
    Mirrors (versions ++ [version]) (upsertRow row version) := by
  cases row with
  | none =>
    obtain rfl : versions = [] := mirrors
    refine ⟨version, ⟨by simp, by simp⟩, fun runs other newest => ?_, .inl rfl⟩
    rw [newest_concat_of_later (by simp) newest]
    exact runs
  | some row =>
    have reflects : Reflects versions row := mirrors
    obtain ⟨newest, is_, ties, from_⟩ := id reflects
    have same : row.updatedAt = newest.updatedAt := by
      obtain rfl | ⟨-, closed⟩ := from_
      · rfl
      · exact closed.updatedAt
    show Reflects (versions ++ [version]) (if version.Supersedes row then version else row)
    split_ifs with wins
    · obtain later | ⟨tie, open_⟩ := wins
      · -- it was heard later than all before it
        refine ⟨version, ⟨by simp, fun other mem => ?_⟩, fun runs other latest => ?_, .inl rfl⟩
        · obtain before | last := List.mem_append.mp mem
          · exact (reflects.updatedAt_le before).trans later.le
          · rw [List.mem_singleton.mp last]
        · rw [newest_concat_of_later (fun other mem => (reflects.updatedAt_le mem).trans_lt later) latest]
          exact runs
      · -- it was heard at the same time, and opens nothing
        refine ⟨version, ⟨by simp, fun other mem => ?_⟩, fun runs other latest => ?_, .inl rfl⟩
        · obtain before | last := List.mem_append.mp mem
          · rw [tie]
            exact reflects.updatedAt_le before
          · rw [List.mem_singleton.mp last]
        · obtain before | last := List.mem_append.mp latest.1
          · have rowRuns : row.Runs := by
              by_contra closed
              exact open_ ⟨runs, closed⟩
            have newestRuns : newest.Runs := by
              obtain rfl | ⟨runs, -⟩ := from_
              · exact rowRuns
              · exact runs
            refine ties newestRuns other ⟨before, fun other' mem => ?_⟩
            exact latest.2 other' (List.mem_append_left _ mem)
          · rw [List.mem_singleton.mp last]
            exact runs
    · -- it was heard earlier, or at the same time as a row that was closed
      rw [WorkRow.Supersedes, not_or, not_lt, not_and, not_not] at wins
      refine ⟨newest, is_.concat (same ▸ wins.1), fun runs other latest => ?_, from_⟩
      obtain before | last := List.mem_append.mp latest.1
      · exact ties runs other ⟨before, fun other' mem => latest.2 other' (List.mem_append_left _ mem)⟩
      · rw [List.mem_singleton.mp last] at latest ⊢
        have tie : version.updatedAt = row.updatedAt :=
          le_antisymm wins.1 (same ▸ latest.2 newest (List.mem_append_left _ is_.1))
        exact (wins.2 tie).1

theorem mirrors_foldl {row : Option (WorkRow Content)} (mirrors : Mirrors versions row)
    (more : List (WorkRow Content)) : Mirrors (versions ++ more) (more.foldl upsertRow row) := by
  induction more generalizing versions row with
  | nil => rwa [List.append_nil]
  | cons version more ih =>
    rw [List.foldl_cons, List.append_cons]
    exact ih (mirrors_upsert mirrors)

theorem lastClosed_eq_some {closed : WorkRow Content} (found : lastClosed versions = some closed) :
    closed ∈ versions ∧ ¬closed.Runs := by
  have mem := List.mem_of_getLast? found
  rw [List.mem_filter] at mem
  exact ⟨mem.1, by simpa using mem.2⟩

theorem lastClosed_eq_none : lastClosed versions = none ↔ ∀ version ∈ versions, version.Runs := by
  rw [lastClosed, List.getLast?_eq_none_iff, List.filter_eq_nil_iff]
  simp

theorem WorkRow.closeInPlace_closed {status : Text} {endReason reason outcome : Option Text}
    {endedAt : Option ℚ} (closed : status ≠ running) :
    ClosedFrom (row.closeInPlace status endReason endedAt reason outcome) row where
  closed runs := closed runs
  id := rfl
  agent := rfl
  started := rfl
  updatedAt := rfl
  work := rfl

theorem Reflects.close (reflects : Reflects versions row) (runs : row.Runs) (closed : ClosedFrom row' row) :
    Reflects versions row' := by
  obtain ⟨version, newest, ties, rfl | ⟨-, before⟩⟩ := reflects
  · exact ⟨row, newest, ties, .inr ⟨runs, closed⟩⟩
  · exact absurd runs before.closed

theorem mirrors_merge {row : Option (WorkRow Content)} (mirrors : Mirrors versions row)
    (more : List (WorkRow Content)) : Mirrors (versions ++ more) (mergeRow row more) := by
  have merged := mirrors_foldl mirrors more
  rw [mergeRow]
  cases after : more.foldl upsertRow row with
  | none =>
    rw [after] at merged
    exact merged
  | some row =>
    rw [after] at merged
    have reflects : Reflects (versions ++ more) row := merged
    rw [Option.map_some]
    split_ifs with runs
    · cases found : lastClosed more with
      | none => exact reflects
      | some closed =>
        exact reflects.close runs (WorkRow.closeInPlace_closed (lastClosed_eq_some found).2)
    · exact reflects

/-! ## Whether it runs -/

theorem foldl_upsertRow_some (row : WorkRow Content) (versions : List (WorkRow Content)) :
    ∃ last, versions.foldl upsertRow (some row) = some last := by
  induction versions generalizing row with
  | nil => exact ⟨row, rfl⟩
  | cons version versions ih => exact ih _

theorem Reflects.updatedAt_lt_iff (reflects : Reflects versions row) {later : WorkRow Content} :
    row.updatedAt < later.updatedAt ↔ ∀ earlier ∈ versions, earlier.updatedAt < later.updatedAt := by
  constructor
  · exact fun less earlier mem => (reflects.updatedAt_le mem).trans_lt less
  · intro all
    obtain ⟨version, newest, -, rfl | ⟨-, closed⟩⟩ := reflects
    · exact all row newest.1
    · rw [closed.updatedAt]
      exact all version newest.1

theorem runs_foldl (all : ∀ version ∈ versions, version.Runs) {last : WorkRow Content}
    (merged : versions.foldl upsertRow (some row) = some last) :
    last.Runs ↔ row.Runs ∨ ∃ version ∈ versions, row.updatedAt < version.updatedAt := by
  induction versions generalizing row with
  | nil =>
    cases merged
    simp
  | cons version versions ih =>
    rw [List.foldl_cons, upsertRow] at merged
    have runs := all version List.mem_cons_self
    rw [ih (fun other mem => all other (List.mem_cons_of_mem _ mem)) merged]
    split_ifs with wins
    · obtain later | ⟨tie, open_⟩ := wins
      · simp [runs, later]
      · have rowRuns : row.Runs := by
          by_contra closed
          exact open_ ⟨runs, closed⟩
        simp [runs, rowRuns]
    · rw [WorkRow.Supersedes, not_or] at wins
      simp [wins.1]

theorem runs_mergeRow {row : Option (WorkRow Content)} {last : WorkRow Content}
    (merged : mergeRow row versions = some last) :
    last.Runs ↔ (∀ version ∈ versions, version.Runs) ∧
      ∃ last', versions.foldl upsertRow row = some last' ∧ last'.Runs := by
  rw [mergeRow] at merged
  obtain ⟨last', after, rfl⟩ := Option.map_eq_some_iff.mp merged
  rw [after]
  split_ifs with runs
  · cases found : lastClosed versions with
    | none => exact iff_of_true runs ⟨lastClosed_eq_none.mp found, last', rfl, runs⟩
    | some closed =>
      obtain ⟨mem, ended⟩ := lastClosed_eq_some found
      have is_ : ¬(last'.closeAs closed).Runs := (WorkRow.closeInPlace_closed ended).closed
      exact iff_of_false is_ fun all => ended (all.1 closed mem)
  · simp [runs]

/-- A batch brought a version that was heard later than all before it, and no version is closed in it or in a
later batch. -/
def Opens (batches : List (List (WorkRow Content))) : Prop :=
  ∃ before batch after, batches = before ++ batch :: after ∧
    (∃ version ∈ batch, ∀ earlier ∈ before.flatten, earlier.updatedAt < version.updatedAt) ∧
      ∀ versions ∈ batch :: after, ∀ version ∈ versions, version.Runs

variable {batches : List (List (WorkRow Content))}

theorem opens_concat : Opens (batches ++ [versions]) ↔
    (∀ version ∈ versions, version.Runs) ∧
      (Opens batches ∨
        ∃ version ∈ versions, ∀ earlier ∈ batches.flatten, earlier.updatedAt < version.updatedAt) := by
  constructor
  · rintro ⟨before, batch, after, split, later, open_⟩
    obtain rfl | ⟨after, last, rfl⟩ := after.eq_nil_or_concat'
    · obtain ⟨rfl, same⟩ := List.append_inj' split rfl
      obtain rfl : versions = batch := List.singleton_inj.mp same
      exact ⟨open_ versions List.mem_cons_self, .inr later⟩
    · rw [← List.cons_append, ← List.append_assoc] at split
      obtain ⟨rfl, same⟩ := List.append_inj' split rfl
      obtain rfl : versions = last := List.singleton_inj.mp same
      refine ⟨open_ versions (by simp), .inl ⟨before, batch, after, rfl, later, fun versions mem => ?_⟩⟩
      exact open_ versions (List.mem_append_left [_] mem)
  · rintro ⟨all, ⟨before, batch, after, rfl, later, open_⟩ | later⟩
    · refine ⟨before, batch, after ++ [versions], by simp, later, fun other mem => ?_⟩
      obtain before_ | last := List.mem_append.mp (show other ∈ batch :: after ++ [versions] from mem)
      · exact open_ other before_
      · rw [List.mem_singleton.mp last]
        exact all
    · refine ⟨batches, versions, [], rfl, later, fun other mem => ?_⟩
      rw [List.mem_singleton.mp mem]
      exact all

def mergeRows (batches : List (List (WorkRow Content))) : Option (WorkRow Content) :=
  batches.foldl mergeRow none

theorem mirrors_mergeRows (batches : List (List (WorkRow Content))) :
    Mirrors batches.flatten (mergeRows batches) := by
  induction batches using List.reverseRecOn with
  | nil => rfl
  | append_singleton batches versions ih =>
    rw [mergeRows, List.foldl_concat, List.flatten_concat]
    exact mirrors_merge ih versions

theorem runs_mergeRows {last : WorkRow Content}
    (merged : mergeRows batches = some last) : last.Runs ↔ Opens batches := by
  induction batches using List.reverseRecOn generalizing last with
  | nil => nomatch merged
  | append_singleton batches versions ih =>
    have mirrors := mirrors_mergeRows batches
    rw [mergeRows, List.foldl_concat, ← mergeRows] at merged
    rw [runs_mergeRow merged, opens_concat]
    refine and_congr_right fun all => ?_
    cases before : mergeRows batches with
    | none =>
      rw [before] at mirrors merged
      have empty : batches.flatten = [] := mirrors
      cases versions with
      | nil => nomatch merged
      | cons version versions =>
        obtain ⟨last', after⟩ := foldl_upsertRow_some version versions
        have runs : last'.Runs :=
          (runs_foldl (fun other mem => all other (List.mem_cons_of_mem _ mem)) after).mpr
            (.inl (all version List.mem_cons_self))
        refine iff_of_true ⟨last', after, runs⟩ (.inr ⟨version, List.mem_cons_self, ?_⟩)
        simp [empty]
    | some row =>
      rw [before] at mirrors
      have reflects : Reflects batches.flatten row := mirrors
      obtain ⟨last', after⟩ := foldl_upsertRow_some row versions
      rw [← ih before, after]
      simp only [Option.some.injEq, exists_eq_left', runs_foldl all after, reflects.updatedAt_lt_iff]

/-! ## The work log -/

namespace WorkLog

/-- The row of the iteration is not deleted because it is too old. -/
def Lasts (batches : List (Batch Content)) (id : Text) : Prop :=
  ∀ before batch after, batches = before ++ batch :: after → (ofBatches before).Prunes batch →
    ∀ row, ((ofBatches before).merge batch).get? id = some row → ¬row.Expired batch.now

variable {batches : List (Batch Content)}

theorem get?_ofBatches (lasts : Lasts batches id) :
    (ofBatches batches).iterations.get? id = mergeRows (batches.map fun batch => batch.versions id) := by
  induction batches using List.reverseRecOn with
  | nil => rfl
  | append_singleton batches batch ih =>
    have earlier : Lasts batches id := fun before batch' after split =>
      lasts before batch' (after ++ [batch]) (by rw [split]; simp)
    have merged : ((ofBatches batches).merge batch).get? id =
        mergeRows ((batches ++ [batch]).map fun batch => batch.versions id) := by
      rw [get?_merge, ih earlier, mergeRows, mergeRows, List.map_append, List.foldl_append]
      rfl
    rw [← merged, ofBatches, List.foldl_concat, ← ofBatches, archive]
    split_ifs with prunes
    · ext row
      rw [Dict.get?_filter_eq_some, and_iff_left_iff_imp]
      exact lasts batches batch [] rfl prunes row
    · rfl

/-- The row that remains of an iteration is one of its newest versions, a closed one if there is one, or
was closed in place. It runs exactly if a batch brought a version that was heard later than all before it,
and none is closed in that batch or in a later one. -/
theorem mirrors_of_lasts (lasts : Lasts batches id) :
    Mirrors (batches.flatMap fun batch => batch.versions id) ((ofBatches batches).iterations.get? id) ∧
      ∀ row, (ofBatches batches).iterations.get? id = some row →
        (row.Runs ↔ Opens (batches.map fun batch => batch.versions id)) := by
  rw [get?_ofBatches lasts]
  refine ⟨?_, fun row there => runs_mergeRows there⟩
  rw [List.flatMap]
  exact mirrors_mergeRows _

/-! ## An iteration that is heard again -/

theorem lasts_of_early (early : ∀ batch ∈ batches, batch.now ≤ 3600) :
    Lasts batches id := by
  intro before batch after split prunes
  have never : (ofBatches before).lastPrune = 0 := by
    have early : ∀ batch ∈ before, batch.now ≤ 3600 := fun batch mem =>
      early batch (by rw [split]; exact List.mem_append_left _ mem)
    clear prunes split
    induction before using List.reverseRecOn with
    | nil => rfl
    | append_singleton before batch ih =>
      have zero := ih fun batch mem => early batch (List.mem_append_left _ mem)
      have not_ : ¬(ofBatches before).Prunes batch := fun prunes => by
        have late := prunes.2
        rw [zero, sub_zero] at late
        exact absurd (early batch (by simp)) (not_le.mpr late)
      rw [ofBatches, List.foldl_concat, ← ofBatches, archive, if_neg not_]
      exact zero
  have late := prunes.2
  rw [never, sub_zero] at late
  exact absurd (early batch (by rw [split]; simp)) (not_le.mpr late)

def versionAt (status : String) (heard : ℚ) : IterationRecord Nat :=
  ⟨"i".toList, status.toList, none, none, none, none, none, ⟨some 1, some heard, [], 0⟩⟩

/-- One version is archived at a time. -/
def batchAt (now : ℚ) (status : String) (heard : ℚ) : Batch Nat :=
  ⟨now, [(⟨none, "a".toList, "m".toList, "search".toList⟩, [versionAt status heard])]⟩

/-- An older version is closed before a newer one, which runs, is archived, or after it. -/
def heardAgain (first : Bool) : List (Batch Nat) :=
  if first then [batchAt 3 "interrupted" 1, batchAt 4 "running" 2]
  else [batchAt 3 "running" 2, batchAt 4 "interrupted" 1]

/-- The newer version is closed in place. -/
theorem heardAgain_mirrors : ∃ row, (ofBatches (heardAgain false)).iterations.get? "i".toList = some row ∧
    Reflects ((heardAgain false).flatMap fun batch => batch.versions "i".toList) row ∧
      (row.Runs ↔ Opens ((heardAgain false).map fun batch => batch.versions "i".toList)) := by
  have early : ∀ batch ∈ heardAgain false, batch.now ≤ 3600 := by with_unfolding_all decide
  have lasts : Lasts (heardAgain false) "i".toList := lasts_of_early early
  obtain ⟨mirrors, runs⟩ := mirrors_of_lasts lasts
  have there : ((ofBatches (heardAgain false)).iterations.get? "i".toList).isSome = true := by
    with_unfolding_all decide
  obtain ⟨row, is_⟩ := Option.isSome_iff_exists.mp there
  rw [is_] at mirrors
  exact ⟨row, is_, mirrors, runs row is_⟩

/-- The version heard last is deleted after a month, and an older one is archived. -/
def deletedOnce : List (Batch Nat) := [batchAt 10000000 "running" 9, batchAt 10000001 "running" 5]

/-- The iteration runs again after a version of it was closed, in the other order it does not, and after the
newest version was deleted an older one comes back. -/
theorem heardAgain_runs :
    (∃ row, (ofBatches (heardAgain true)).iterations.get? "i".toList = some row ∧ row.Runs ∧
      ∃ version ∈ (heardAgain true).flatMap fun batch => batch.versions "i".toList, ¬version.Runs) ∧
    (∃ row, (ofBatches (heardAgain false)).iterations.get? "i".toList = some row ∧ ¬row.Runs) ∧
    ∃ row, (ofBatches deletedOnce).iterations.get? "i".toList = some row ∧
      ∃ version ∈ deletedOnce.flatMap fun batch => batch.versions "i".toList,
        row.updatedAt < version.updatedAt := by
  have again : ((ofBatches (heardAgain true)).iterations.get? "i".toList).any (fun row => row.Runs ∧
      ∃ version ∈ (heardAgain true).flatMap fun batch => batch.versions "i".toList, ¬version.Runs) =
        true := by
    with_unfolding_all decide
  have closed : ((ofBatches (heardAgain false)).iterations.get? "i".toList).any (fun row => ¬row.Runs) =
      true := by
    with_unfolding_all decide
  have older : ((ofBatches deletedOnce).iterations.get? "i".toList).any (fun row =>
      ∃ version ∈ deletedOnce.flatMap fun batch => batch.versions "i".toList,
        row.updatedAt < version.updatedAt) = true := by
    with_unfolding_all decide
  rw [Option.any_eq_true] at again closed older
  obtain ⟨row, here, runs⟩ := again
  obtain ⟨row', here', ended⟩ := closed
  obtain ⟨row'', here'', less⟩ := older
  exact ⟨⟨row, here, of_decide_eq_true runs⟩, ⟨row', here', of_decide_eq_true ended⟩,
    ⟨row'', here'', of_decide_eq_true less⟩⟩

end WorkLog

end

end FreeSwarm.Console
