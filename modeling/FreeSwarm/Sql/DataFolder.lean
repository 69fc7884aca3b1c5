import FreeSwarm.Foundation.Text

/-!
# Files of a project's data folder

`_absolutize` replaces what is named like a relative data file: the names of tables, and all strings, also those that
are values. A query keeps its meaning if no value and no common table expression has such a name, and no table that
is replaced has anything that is lost.
-/

namespace FreeSwarm.Sql.DataFolder

/-! ## Model -/

abbrev Text := List Char

inductive Query where
  | string (value : Text)
  | column (table : Option Text) (name : Text)
  | table (name : Text) (as_ : Option Text) (columns : List Text) (rest : Query)
  | source (reader path : Text) (as_ : Option Text) (columns : List Text) (rest : Query)
  | cte (name : Text) (query body : Query)
  | node (kind : Text) (args : Query)
  | done
  | arg (first rest : Query)
  deriving DecidableEq

/-- The classes of `_WRITE_NODES`, and `Into`. -/
def WRITE_NODES : List Text :=
  ["Insert", "Update", "Delete", "Merge", "Create", "Drop", "Alter", "Copy", "Command", "Attach", "Detach", "Pragma",
    "Set", "Use", "TruncateTable", "Into"].map String.toList

def SELECTS : List Text := ["Select", "Union", "Intersect", "Except", "With", "Subquery"].map String.toList

/-- `walk`: no expression writes. -/
def Query.reads : Query → Bool
  | .string _ | .column _ _ | .done => true
  | .table _ _ _ rest | .source _ _ _ _ rest => rest.reads
  | .cte _ query body => query.reads && body.reads
  | .node kind args => !WRITE_NODES.contains kind && args.reads
  | .arg first rest => first.reads && rest.reads

/-- `_check_select`, for the statements of a text. -/
def checkSelect : List Query → Option Query
  | [.node kind args] => if SELECTS.contains kind && (Query.node kind args).reads then some (.node kind args) else none
  | [.cte name query body] => if (Query.cte name query body).reads then some (.cte name query body) else none
  | _ => none

variable (value : Text)

/-- The last part of a path. -/
def fileName : Text :=
  ((value.splitOn '/').filter fun part => part ≠ [] ∧ part ≠ ['.']).getLast?.getD []

/-- `Path(value).suffix`. -/
def suffix : Text :=
  let name := fileName value
  let ext := (name.reverse.takeWhile (· ≠ '.')).reverse
  if '.' ∈ name ∧ ext ≠ [] ∧ ext.length + 1 < name.length then '.' :: ext else []

def READERS : List (Text × Text) :=
  [(".parquet".toList, "read_parquet".toList), (".csv".toList, "read_csv_auto".toList),
    (".tsv".toList, "read_csv_auto".toList), (".json".toList, "read_json_auto".toList),
    (".jsonl".toList, "read_json_auto".toList), (".ndjson".toList, "read_json_auto".toList)]

def readerOf : Option Text := READERS.lookup ((suffix value).map Char.toLower)

def remote : Bool := "://".toList <:+: value

/-- An absolute path, or one with a drive. -/
def rooted : Bool :=
  match value with
  | '/' :: _ => true
  | drive :: ':' :: _ => drive.isAlpha
  | _ => false

def relative : Bool := !remote value && !rooted value

def dataFile (name : Text) : Option Text := if remote name then none else readerOf name

def fileLike : Bool := (readerOf value).isSome && relative value

/-- The folder, and what the database makes of a query. -/
structure Folder where
  /-- `(root / value).resolve().as_posix()`. -/
  resolve : Text → Text
  inside : Text → Bool
  absolute : ∀ value, rooted (resolve value) = true
  reader : Text → Bool
  implied : Text → Text

variable (env : Folder)

def pathOf (name : Text) : Text := if rooted name then name else env.resolve name

def tableEscapes : Query → Bool
  | .string _ | .column _ _ | .done => false
  | .table name _ _ rest => ((dataFile name).isSome && !rooted name && !env.inside name) || tableEscapes rest
  | .source _ _ _ _ rest => tableEscapes rest
  | .cte _ query body => tableEscapes query || tableEscapes body
  | .node _ args => tableEscapes args
  | .arg first rest => tableEscapes first || tableEscapes rest

/-- The first loop. -/
def replaceTables : Query → Query
  | .table name as_ columns rest =>
    match dataFile name with
    | some reader => .source reader (pathOf env name) as_ [] .done
    | none => .table name as_ columns (replaceTables rest)
  | .source reader path as_ columns rest => .source reader path as_ columns (replaceTables rest)
  | .cte name query body => .cte name (replaceTables query) (replaceTables body)
  | .node kind args => .node kind (replaceTables args)
  | .arg first rest => .arg (replaceTables first) (replaceTables rest)
  | other => other

def stringEscapes : Query → Bool
  | .string value => fileLike value && !env.inside value
  | .column _ _ | .done => false
  | .table _ _ _ rest => stringEscapes rest
  | .source _ path _ _ rest => (fileLike path && !env.inside path) || stringEscapes rest
  | .cte _ query body => stringEscapes query || stringEscapes body
  | .node _ args => stringEscapes args
  | .arg first rest => stringEscapes first || stringEscapes rest

def replaceString (value : Text) : Text := if fileLike value then env.resolve value else value

/-- The second loop. -/
def replaceStrings : Query → Query
  | .string value => .string (replaceString env value)
  | .table name as_ columns rest => .table name as_ columns (replaceStrings rest)
  | .source reader path as_ columns rest =>
    .source reader (replaceString env path) as_ columns (replaceStrings rest)
  | .cte name query body => .cte name (replaceStrings query) (replaceStrings body)
  | .node kind args => .node kind (replaceStrings args)
  | .arg first rest => .arg (replaceStrings first) (replaceStrings rest)
  | other => other

/-- `path escapes the project data folder`. -/
def escapes (q : Query) : Bool := tableEscapes env q || stringEscapes env (replaceTables env q)

/-- `_absolutize`, unless it raises. -/
def absolutize (q : Query) : Option Query :=
  if escapes env q then none else some (replaceStrings env (replaceTables env q))

/-! ## What a query means -/

/-- Where an expression stands. -/
inductive Place where
  | value | file | call
  deriving DecidableEq

/-- Where the arguments of an expression stand. A list of files is a file argument. -/
def Place.into (place : Place) (kind : Text) : Place :=
  if env.reader kind then .call else if place = .file ∧ kind = "Array".toList then .file else .value

def Place.first : Place → Place
  | .call => .file
  | place => place

/-- Where the other arguments stand. -/
def Place.rest : Place → Place
  | .call => .value
  | place => place

def qualifiers : Query → List Text
  | .string _ | .done => []
  | .column table _ => table.toList
  | .table _ _ _ rest | .source _ _ _ _ rest => qualifiers rest
  | .cte _ query body => qualifiers query ++ qualifiers body
  | .node _ args => qualifiers args
  | .arg first rest => qualifiers first ++ qualifiers rest

variable (used : List Text)

def resolveFile (path : Text) : Text := if relative path then env.resolve path else path

/-- A file keeps the name of the table, if a column is qualified with it. -/
def aliasOf (name : Text) (as_ : Option Text) : Option Text :=
  as_.or (if env.implied name ∈ used then some (env.implied name) else none)

/-- A query with its files resolved: the tables that are no common table expressions, and the file arguments. -/
def resolved : Place → List Text → Query → Query
  | place, _, .string value => .string (if place = .file then resolveFile env value else value)
  | _, _, .column table name => .column table name
  | _, scope, .table name as_ columns rest =>
    match if name ∈ scope then none else dataFile name with
    | some reader => .source reader (pathOf env name) (aliasOf env used name as_) columns (resolved .value scope rest)
    | none => .table name as_ columns (resolved .value scope rest)
  | _, scope, .source reader path as_ columns rest =>
    .source reader (resolveFile env path) as_ columns (resolved .value scope rest)
  | _, scope, .cte name query body => .cte name (resolved .value scope query) (resolved .value (name :: scope) body)
  | place, scope, .node kind args => .node kind (resolved (place.into env kind) scope args)
  | _, _, .done => .done
  | place, scope, .arg first rest => .arg (resolved place.first scope first) (resolved place.rest scope rest)

/-- A file lies outside the folder. -/
def outside : Place → List Text → Query → Bool
  | place, _, .string value => place = .file && relative value && !env.inside value
  | _, _, .column _ _ | _, _, .done => false
  | _, scope, .table name _ _ rest =>
    (name ∉ scope && (dataFile name).isSome && !rooted name && !env.inside name) || outside .value scope rest
  | _, scope, .source _ path _ _ rest => (relative path && !env.inside path) || outside .value scope rest
  | _, scope, .cte name query body => outside .value scope query || outside .value (name :: scope) body
  | place, scope, .node kind args => outside (place.into env kind) scope args
  | place, scope, .arg first rest => outside place.first scope first || outside place.rest scope rest

def meant (q : Query) : Option Query :=
  if outside env .value [] q then none else some (resolved env (qualifiers q) .value [] q)

/-- No value is named like a relative data file, and all relative file arguments are. A table that is named like a
data file is no common table expression, gives no names to columns and carries nothing else, and it has an alias, or
its own name qualifies no column. -/
def Clean : Place → List Text → Query → Prop
  | place, _, .string value => if place = .file then relative value → fileLike value else ¬ fileLike value
  | _, _, .column _ _ | _, _, .done => True
  | _, scope, .table name as_ columns rest =>
    match dataFile name with
    | some _ => name ∉ scope ∧ columns = [] ∧ rest = .done ∧ (as_ ≠ none ∨ env.implied name ∉ used)
    | none => Clean .value scope rest
  | _, scope, .source _ path _ _ rest => (relative path → fileLike path) ∧ Clean .value scope rest
  | _, scope, .cte name query body => Clean .value scope query ∧ Clean .value (name :: scope) body
  | place, scope, .node kind args => Clean (place.into env kind) scope args
  | place, scope, .arg first rest => Clean place.first scope first ∧ Clean place.rest scope rest

/-! ## Results -/

variable {env used}

theorem rooted_pathOf (name : Text) : rooted (pathOf env name) = true := by
  unfold pathOf
  split_ifs with is_
  exacts [is_, env.absolute name]

variable {value : Text}

theorem fileLike_of_rooted (is_ : rooted value = true) : fileLike value = false := by
  simp [fileLike, relative, is_]

theorem resolve_ne (is_ : relative value = true) : env.resolve value ≠ value := by
  intro same
  have absolute := env.absolute value
  rw [same] at absolute
  simp [relative, absolute] at is_

theorem fileLike_relative (is_ : fileLike value = true) : relative value = true :=
  (Bool.and_eq_true_iff.mp is_).2

theorem replaceString_eq_resolveFile {path : Text} :
    replaceString env path = resolveFile env path ↔ (relative path = true → fileLike path = true) := by
  unfold replaceString resolveFile
  by_cases like : fileLike path = true
  · simp [like, fileLike_relative like]
  · by_cases is_ : relative path = true
    · simp only [like, is_, if_true, Bool.false_eq_true, if_false, true_implies, iff_false]
      exact fun same => resolve_ne is_ same.symm
    · simp [like, is_]

theorem replaceString_eq_self : replaceString env value = value ↔ ¬ fileLike value = true := by
  unfold replaceString
  by_cases like : fileLike value = true
  · simp [like, resolve_ne (fileLike_relative like)]
  · simp [like]

theorem resolved_eq_done {place : Place} {scope : List Text} {q : Query} :
    resolved env used place scope q = .done ↔ q = .done := by
  cases q <;> simp only [resolved, reduceCtorEq]
  split <;> simp

theorem aliasOf_eq {name : Text} {as_ : Option Text} :
    aliasOf env used name as_ = as_ ↔ as_ ≠ none ∨ env.implied name ∉ used := by
  unfold aliasOf
  cases as_ <;> simp

theorem replace_eq_resolved (q : Query) (place : Place) (scope : List Text) :
    replaceStrings env (replaceTables env q) = resolved env used place scope q ↔ Clean env used place scope q := by
  induction q generalizing place scope with
  | string value =>
    unfold replaceTables replaceStrings resolved Clean
    by_cases file : place = .file
    · simp only [file, if_true, Query.string.injEq]
      exact replaceString_eq_resolveFile
    · simp only [file, if_false, Query.string.injEq]
      exact replaceString_eq_self
  | column table name => simp [replaceTables, replaceStrings, resolved, Clean]
  | done => simp [replaceTables, replaceStrings, resolved, Clean]
  | table name as_ columns rest ih =>
    unfold replaceTables resolved Clean
    cases file : dataFile name with
    | none => simp [replaceStrings, ih]
    | some reader =>
      by_cases there : name ∈ scope
      · simp [there, replaceStrings]
      · have path : replaceString env (pathOf env name) = pathOf env name := by
          rw [replaceString_eq_self, fileLike_of_rooted (rooted_pathOf name)]
          simp
        simp only [there, replaceStrings, if_false, path, Query.source.injEq, true_and, not_false_iff]
        rw [eq_comm, aliasOf_eq, eq_comm (a := Query.done), resolved_eq_done, eq_comm (a := [])]
        tauto
  | source reader path as_ columns rest ih =>
    simp only [replaceTables, replaceStrings, resolved, Clean, Query.source.injEq, true_and]
    exact and_congr replaceString_eq_resolveFile (ih _ _)
  | cte name query body ihQuery ihBody =>
    simp only [replaceTables, replaceStrings, resolved, Clean, Query.cte.injEq, true_and]
    exact and_congr (ihQuery _ _) (ihBody _ _)
  | node kind args ih =>
    simp only [replaceTables, replaceStrings, resolved, Clean, Query.node.injEq, true_and]
    exact ih _ _
  | arg first rest ihFirst ihRest =>
    simp only [replaceTables, replaceStrings, resolved, Clean, Query.arg.injEq]
    exact and_congr (ihFirst _ _) (ihRest _ _)

theorem outside_eq (q : Query) (place : Place) (scope : List Text) (clean : Clean env used place scope q) :
    outside env place scope q = escapes env q := by
  unfold escapes
  induction q generalizing place scope with
  | string value =>
    unfold Clean at clean
    by_cases file : place = .file
    · rw [if_pos file] at clean
      have same : relative value = fileLike value :=
        Bool.eq_iff_iff.mpr ⟨clean, fileLike_relative⟩
      simp [outside, tableEscapes, replaceTables, stringEscapes, file, same]
    · rw [if_neg file] at clean
      simp [outside, tableEscapes, replaceTables, stringEscapes, file, clean]
  | column table name => rfl
  | done => rfl
  | table name as_ columns rest ih =>
    unfold Clean at clean
    cases file : dataFile name with
    | none =>
      rw [file] at clean
      simp [outside, tableEscapes, replaceTables, stringEscapes, file, ih _ _ clean]
    | some reader =>
      rw [file] at clean
      obtain ⟨out, rfl, rfl, -⟩ := clean
      have path : fileLike (pathOf env name) = false := fileLike_of_rooted (rooted_pathOf name)
      simp [outside, tableEscapes, replaceTables, stringEscapes, file, out, path]
  | source reader path as_ columns rest ih =>
    have same : relative path = fileLike path := Bool.eq_iff_iff.mpr ⟨clean.1, fileLike_relative⟩
    simp only [outside, tableEscapes, replaceTables, stringEscapes, same, ih _ _ clean.2]
    exact Bool.or_left_comm _ _ _
  | cte name query body ihQuery ihBody =>
    simp only [outside, tableEscapes, replaceTables, stringEscapes, ihQuery _ _ clean.1, ihBody _ _ clean.2]
    ac_rfl
  | node kind args ih => exact ih _ _ clean
  | arg first rest ihFirst ihRest =>
    simp only [outside, tableEscapes, replaceTables, stringEscapes, ihFirst _ _ clean.1, ihRest _ _ clean.2]
    ac_rfl

/-- The query that is run is what is meant exactly if it is clean, unless it is refused. -/
theorem absolutize_iff (env : Folder) (q : Query) :
    (∀ out, absolutize env q = some out → meant env q = some out) ↔
      escapes env q = true ∨ Clean env (qualifiers q) .value [] q := by
  unfold absolutize meant
  constructor
  · intro all
    by_cases refused : escapes env q = true
    · exact .inl refused
    · refine .inr ((replace_eq_resolved q _ _).mp ?_)
      have same := all _ (if_neg refused)
      split_ifs at same
      exact (Option.some.inj same).symm
  · rintro (refused | clean) out runs
    · rw [if_pos refused] at runs
      exact absurd runs (by simp)
    · rwa [outside_eq q _ _ clean, ← (replace_eq_resolved q _ _).mpr clean]

/-- A folder without links, and a database with one reader. -/
def shelf : Folder where
  resolve value := "/data/".toList ++ value
  inside value := !("..".toList.isPrefixOf value)
  absolute _ := rfl
  reader name := name = "read_parquet".toList
  implied name := (fileName name).takeWhile (· ≠ '.')

/-- `SELECT f FROM 'p.csv' AS t WHERE f = 'a.csv'`. -/
def comparing : Query :=
  .node "Select".toList (.arg (.column none ['f']) (.arg (.table "p.csv".toList (some ['t']) [] .done)
    (.arg (.node "EQ".toList (.arg (.column none ['f']) (.arg (.string "a.csv".toList) .done))) .done)))

/-- A value is compared with that is named like a file. -/
theorem absolutize_value : checkSelect [comparing] = some comparing ∧
    ∃ out, absolutize shelf comparing = some out ∧ meant shelf comparing ≠ some out := by
  refine ⟨by with_unfolding_all decide, _, rfl, ?_⟩
  with_unfolding_all decide

end FreeSwarm.Sql.DataFolder
