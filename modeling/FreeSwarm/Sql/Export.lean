import FreeSwarm.Foundation.Machine
import Mathlib.Tactic.Common

/-!
# Exports of a table

A table is exported to the files of a temporary folder, which then takes the place of the folder that agents
read. The rows come in batches, and a file ends when it has as many rows as it may have.
-/

namespace FreeSwarm.Sql.Export

/-! ## Files -/

/-- A file of a dataset. -/
inductive DataFile (Row : Type) where
  | part (rows : List Row)
  /-- `EXPORT_MANIFEST`: `rows` and `files` of it. -/
  | manifest (rows files : Nat)
  deriving DecidableEq

abbrev Folder (Row : Type) := List (DataFile Row)

/-- The files that are closed, and the rows of the one that `writer` has open. -/
structure Writing (Row : Type) where
  closed : List (List Row)
  writer : Option (List Row)
  written : Nat

variable {Row : Type} (rowsPerFile : Nat)

/-- The rows of a chunk go to the open file and to new ones. -/
def writeChunk : Nat → List Row → Writing Row → Writing Row
  | 0, _, w => w
  | fuel + 1, chunk, w =>
    if chunk.isEmpty then w
    else
      let file := w.writer.getD []
      let take := min chunk.length (rowsPerFile - file.length)
      let file := file ++ chunk.take take
      writeChunk fuel (chunk.drop take)
        (if rowsPerFile ≤ file.length then ⟨w.closed ++ [file], none, w.written + take⟩
        else ⟨w.closed, some file, w.written + take⟩)

/-- The batches up to the first that is empty. -/
def fetched (batches : List (List Row)) : List (List Row) := batches.takeWhile fun batch => !batch.isEmpty

def writeAll (batches : List (List Row)) : Writing Row :=
  (fetched batches).foldl (fun w chunk => writeChunk rowsPerFile chunk.length chunk w) ⟨[], none, 0⟩

/-- An empty result has a file too. -/
def Writing.files (w : Writing Row) : List (List Row) :=
  let files := w.closed ++ w.writer.toList
  if files.isEmpty then [[]] else files

def Writing.folder (w : Writing Row) : Folder Row :=
  w.files.map .part ++ [.manifest w.written w.files.length]

/-! ## Exports -/

/-- Where an export fails. -/
inductive Fault where
  /-- The table is not available, or the query is not allowed. -/
  | query
  | reader
  /-- A statement, a batch or a file, after so many batches. -/
  | body (batches : Nat)
  /-- `rollback` or `close` of the connection. -/
  | rollback
  /-- The old dataset, after so many of its files were removed. -/
  | rmtree (files : Nat)
  | rename

structure Disk (Row : Type) where
  dest : Option (Folder Row)
  tmp : Option (Folder Row)
  deriving DecidableEq

/-- Whether an export succeeds, and what is on the disk, from its begin to its end. -/
def exportTable (batches : List (List Row)) (old : Option (Folder Row)) (fault : Option Fault) :
    Bool × List (Disk Row) :=
  let new := (writeAll rowsPerFile batches).folder
  let written : List (Disk Row) := [⟨old, none⟩, ⟨old, some []⟩, ⟨old, some new⟩]
  let removed (old : Folder Row) (files : Nat) : List (Disk Row) :=
    (List.range (files + 1)).map fun i => ⟨some (old.drop i), some new⟩
  let unnamed : List (Disk Row) :=
    old.elim written fun old => written ++ removed old old.length ++ [⟨none, some new⟩]
  match fault, old with
  | some .query, _ => (false, [⟨old, none⟩])
  | some .reader, _ => (false, [⟨old, none⟩, ⟨old, some []⟩])
  | some (.body k), _ =>
    let parts := (writeAll rowsPerFile (batches.take k)).files.map .part
    (false, [⟨old, none⟩, ⟨old, some []⟩, ⟨old, some parts⟩, ⟨old, none⟩])
  | some .rollback, _ => (false, written)
  | some (.rmtree k), some old => (false, written ++ removed old k)
  | some .rename, _ => (false, unnamed)
  | some (.rmtree _), none | none, _ => (true, unnamed ++ [⟨some new, none⟩])

/-- A dataset has the rows in files that are full but the last one, and tells how many they are. -/
def Complete (rows : List Row) (folder : Folder Row) : Prop :=
  ∃ files : List (List Row), folder = files.map .part ++ [.manifest rows.length files.length] ∧
    files.flatten = rows ∧ (∀ file ∈ files, file.length ≤ rowsPerFile) ∧
      ∀ file ∈ files.dropLast, file.length = rowsPerFile

/-- An export is complete and atomic. -/
structure Atomic (rows : List Row) (old : Option (Folder Row)) (run : Bool × List (Disk Row)) : Prop where
  complete : run.1 → ∃ new, Complete rowsPerFile rows new ∧ run.2.getLast? = some ⟨some new, none⟩
  unchanged : ¬run.1 → run.2.getLast? = some ⟨old, none⟩
  whole : ∀ disk ∈ run.2, disk.dest = old ∨ ∃ new, Complete rowsPerFile rows new ∧ disk.dest = some new

/-- An export fails before its end, or ends when no dataset is there. -/
def Safe (old : Option (Folder Row)) : Option Fault → Prop
  | some .query | some (.body _) => True
  | none | some (.rmtree _) => old = none
  | some .reader | some .rollback | some .rename => False

/-! ## What is written -/

structure Writing.Ok (w : Writing Row) (rows : List Row) : Prop where
  closed : ∀ file ∈ w.closed, file.length = rowsPerFile
  writer : ∀ file ∈ w.writer, file ≠ [] ∧ file.length < rowsPerFile
  same : w.closed.flatten ++ w.writer.getD [] = rows
  written : w.written = rows.length

variable {rowsPerFile}

theorem Writing.Ok.writeChunk (positive : 0 < rowsPerFile) {fuel : Nat} {w : Writing Row} {rows chunk : List Row}
    (ok : w.Ok rowsPerFile rows) (enough : chunk.length ≤ fuel) :
    (Export.writeChunk rowsPerFile fuel chunk w).Ok rowsPerFile (rows ++ chunk) := by
  induction fuel generalizing w rows chunk with
  | zero =>
    rw [List.length_eq_zero_iff.mp (Nat.le_zero.mp enough), List.append_nil]
    exact ok
  | succ fuel ih =>
    rw [Export.writeChunk]
    split
    · rename_i none_left
      rw [List.isEmpty_iff.mp none_left, List.append_nil]
      exact ok
    · rename_i some_left
      have some_left : 0 < chunk.length := List.length_pos_iff.mpr fun none_left => some_left (by simp [none_left])
      have room : (w.writer.getD []).length < rowsPerFile := by
        cases open_ : w.writer with
        | none => exact positive
        | some file => exact (ok.writer file open_).2
      dsimp only
      generalize taken : min chunk.length (rowsPerFile - (w.writer.getD []).length) = take
      have size : (w.writer.getD [] ++ chunk.take take).length = (w.writer.getD []).length + take := by
        rw [List.length_append, List.length_take]
        omega
      have rows_ : rows ++ chunk.take take ++ chunk.drop take = rows ++ chunk := by
        rw [List.append_assoc, List.take_append_drop]
      have written : w.written + take = (rows ++ chunk.take take).length := by
        rw [List.length_append, List.length_take, ok.written]
        omega
      rw [← rows_]
      refine ih ?_ (by rw [List.length_drop]; omega)
      split
      · rename_i full
        refine ⟨fun file mem => ?_, by simp, by simp [← ok.same], written⟩
        rcases Foundation.mem_concat mem with mem | rfl
        · exact ok.closed file mem
        · omega
      · rename_i open_
        refine ⟨ok.closed, fun file mem => ?_, by simp [← ok.same], written⟩
        cases mem
        refine ⟨fun none_ => ?_, by omega⟩
        rw [none_, List.length_nil] at size
        omega

theorem writeAll_ok (positive : 0 < rowsPerFile) (batches : List (List Row)) :
    (writeAll rowsPerFile batches).Ok rowsPerFile (fetched batches).flatten := by
  suffices ∀ (chunks : List (List Row)) (w : Writing Row) (rows : List Row), w.Ok rowsPerFile rows →
      (chunks.foldl (fun w chunk => writeChunk rowsPerFile chunk.length chunk w) w).Ok rowsPerFile
        (rows ++ chunks.flatten) from
    this (fetched batches) _ [] ⟨by simp, by simp, rfl, rfl⟩
  intro chunks
  induction chunks with
  | nil =>
    intro w rows ok
    simpa using ok
  | cons chunk chunks ih =>
    intro w rows ok
    rw [List.foldl_cons, List.flatten_cons, ← List.append_assoc]
    exact ih _ _ (ok.writeChunk positive (Nat.le_refl _))

theorem Writing.Ok.complete {w : Writing Row} {rows : List Row} (ok : w.Ok rowsPerFile rows) :
    Complete rowsPerFile rows w.folder := by
  refine ⟨w.files, by rw [folder, ok.written], ?_⟩
  obtain ⟨closed, writer, written⟩ := w
  obtain ⟨full, short, rfl, -⟩ := ok
  cases writer with
  | some file =>
    have files : (Writing.mk closed (some file) written).files = closed ++ [file] := by simp [Writing.files]
    rw [files, List.dropLast_concat]
    refine ⟨by simp, fun file' mem => ?_, full⟩
    rcases Foundation.mem_concat mem with mem | rfl
    · exact Nat.le_of_eq (full file' mem)
    · exact Nat.le_of_lt (short file' rfl).2
  | none =>
    cases closed with
    | nil => simp [Writing.files]
    | cons file closed =>
      have files : (Writing.mk (file :: closed) none written).files = file :: closed := by simp [Writing.files]
      rw [files]
      exact ⟨by simp, fun file mem => Nat.le_of_eq (full file mem), fun file mem => full file (List.dropLast_subset _ mem)⟩

end FreeSwarm.Sql.Export
