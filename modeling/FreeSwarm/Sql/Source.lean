import FreeSwarm.Foundation.Blanks
import Mathlib.Algebra.GroupWithZero.Nat

/-!
# Queries of a project's database

A query of an agent is parsed, and every table in it has to be one of those that were chosen for the project.
A table without a schema may be a common table expression of the query instead. The names of these are
gathered from the whole query, while the server looks only for those in whose scope the table stands.
-/

namespace FreeSwarm.Sql

open FreeSwarm.Foundation

abbrev Text := List Char

/-! ## Syntax trees -/

/-- `exp.Table`: a table as it is named in a query. An empty part is none. -/
structure TableRef where
  /-- `catalog`: the database. -/
  catalog : Option Text
  /-- `db`: the schema. -/
  db : Option Text
  /-- `this`: the name. -/
  name : Text
  deriving DecidableEq

/-- The class of an expression. -/
inductive Kind where
  | select
  | union
  | intersect
  | except_
  | with_
  | subquery
  /-- One of `_WRITE_NODES`. -/
  | write (name : Text)
  | into
  | other

mutual

/-- An expression. -/
inductive Node where
  | table (ref : TableRef) (children : Nodes)
  | expr (kind : Kind) (ctes : Ctes) (children : Nodes)

/-- Expressions, one after the other. -/
inductive Nodes where
  | nil
  | cons (node : Node) (rest : Nodes)

/-- Common table expressions: the clause `WITH`. -/
inductive Ctes where
  | nil
  | cons (name : Text) (query : Node) (rest : Ctes)

end

/-! ## What the server reads -/

/-- The common table expressions that a place of a query can name, each with the tables that it reads. -/
abbrev Scope := List (Text × List TableRef)

section
variable (lower : Text → Text)

/-- What a table stands for: a name without a schema is that of a common table expression in scope, if there
is one, and any other name is that of a table of the database. -/
def TableRef.resolve (scope : Scope) (ref : TableRef) : List TableRef :=
  if ref.catalog = none ∧ ref.db = none then
    match scope.find? fun cte => lower cte.1 = lower ref.name with
    | some cte => cte.2
    | none => [ref]
  else [ref]

mutual

def Node.reads (scope : Scope) : Node → List TableRef
  | .table ref children => ref.resolve lower scope ++ children.reads scope
  | .expr _ ctes children => children.reads (ctes.define scope)

def Nodes.reads (scope : Scope) : Nodes → List TableRef
  | .nil => []
  | .cons node rest => node.reads scope ++ rest.reads scope

/-- A common table expression is in scope in those after it, and in itself. -/
def Ctes.define (scope : Scope) : Ctes → Scope
  | .nil => scope
  | .cons name query rest => rest.define ((name, query.reads ((name, []) :: scope)) :: scope)

end

end

/-! ## Walking a tree -/

/-- What is met on a walk through a tree. -/
inductive Item where
  | node (node : Node)
  | with_ (ctes : Ctes)
  | cte (name : Text) (query : Node)

/-- The expressions. -/
def Nodes.items : Nodes → List Item
  | .nil => []
  | .cons node rest => .node node :: rest.items

/-- The common table expressions. -/
def Ctes.items : Ctes → List Item
  | .nil => []
  | .cons name query rest => .cte name query :: rest.items

/-- `iter_expressions`: what is directly below. -/
def Item.children : Item → List Item
  | .node (.table _ children) => children.items
  | .node (.expr _ .nil children) => children.items
  | .node (.expr _ ctes children) => children.items ++ [.with_ ctes]
  | .with_ ctes => ctes.items
  | .cte _ query => [.node query]

mutual

def Node.size : Node → Nat
  | .table _ children => children.size + 1
  | .expr _ ctes children => children.size + ctes.size + 2

def Nodes.size : Nodes → Nat
  | .nil => 0
  | .cons node rest => node.size + rest.size

/-- The size of common table expressions. -/
def Ctes.size : Ctes → Nat
  | .nil => 0
  | .cons _ query rest => query.size + rest.size + 1

end

def Item.size : Item → Nat
  | .node expr => expr.size
  | .with_ ctes => ctes.size + 1
  | .cte _ query => query.size + 1

/-- `bfs`: what is met level by level. -/
def bfs : Nat → List Item → List Item
  | 0, _ => []
  | _, [] => []
  | fuel + 1, item :: queue => item :: bfs fuel (queue ++ item.children)

def Node.walk (stmt : Node) : List Item := bfs stmt.size [.node stmt]

/-! ## The check -/

/-- What the check looks at of the settings of a project. -/
structure Cfg where
  database : Text
  /-- `tables`: the tables that were chosen. -/
  tables : List Text

/-- `[` or `]`. -/
def isBracket (c : Char) : Bool := c = '[' || c = ']'

/-- `strip("[]")`. -/
def stripBrackets (text : Text) : Text := (text.dropWhile isBracket).rdropWhile isBracket

def normalizeTable (t : Text) : Except Text Text :=
  match ((t.splitOn '.').filter fun p => strip p ≠ []).map fun p => stripBrackets (strip p) with
  | [name] => .ok ("dbo".toList ++ '.' :: name)
  | [schema, name] => .ok (schema ++ '.' :: name)
  | _ => .error ("table must be schema.name: ".toList ++ t)

/-- `qualified`, before it is made lower case. -/
def TableRef.qualified (ref : TableRef) : Text := ref.db.getD "dbo".toList ++ '.' :: ref.name

/-- The kinds of statements that may be sent. -/
def Node.IsSelect : Node → Prop
  | .expr .select _ _ | .expr .union _ _ | .expr .intersect _ _ | .expr .except_ _ _ | .expr .with_ _ _
  | .expr .subquery _ _ => True
  | _ => False

instance : DecidablePred Node.IsSelect := fun stmt => by
  cases stmt with
  | table => exact instDecidableFalse
  | expr kind => cases kind <;> unfold Node.IsSelect <;> infer_instance

section
variable (lower : Text → Text) (cfg : Cfg)

/-- The table is one of those that were chosen, in the database of the project. -/
def Available (ref : TableRef) : Prop :=
  (∀ cat ∈ ref.catalog, lower cat = lower cfg.database) ∧ lower ref.qualified ∈ cfg.tables.map lower

instance : DecidablePred (Available lower cfg) := fun _ => inferInstanceAs (Decidable (_ ∧ _))

/-- The table has no schema, and a name that is given to some common table expression. -/
def Skipped (ctes : List Text) (ref : TableRef) : Prop := ref.db = none ∧ lower ref.name ∈ ctes

instance (ctes : List Text) : DecidablePred (Skipped lower ctes) :=
  fun _ => inferInstanceAs (Decidable (_ ∧ _))

def checkTable (ctes : List Text) (ref : TableRef) : Except Text Unit :=
  if Skipped lower ctes ref then .ok ()
  else if ∃ cat ∈ ref.catalog, lower cat ≠ lower cfg.database then
    .error ("only database ".toList ++ cfg.database ++ " is available".toList)
  else if lower ref.qualified ∉ cfg.tables.map lower then
    .error ("table ".toList ++ ref.db.elim [] (fun db => db ++ ".".toList) ++ ref.name ++
      " is not available to this project. Allowed: ".toList ++ ", ".toList.intercalate cfg.tables)
  else .ok ()

def checkItem (ctes : List Text) : Item → Except Text Unit
  | .node (.table ref _) => checkTable lower cfg ctes ref
  | .node (.expr (.write name) _ _) =>
    .error (name ++ " is not allowed -- this connection is read-only".toList)
  | .node (.expr .into _ _) => .error "Into is not allowed -- this connection is read-only".toList
  | _ => .ok ()

/-- The name of a common table expression. -/
def Item.cteName : Item → Option Text
  | .cte name _ => some (lower name)
  | _ => none

/-- `ctes`: the names of all common table expressions. -/
def Node.cteNames (stmt : Node) : List Text := stmt.walk.filterMap (Item.cteName lower)

def checkStatement (stmt : Node) : Except Text Unit :=
  if ¬stmt.IsSelect then .error "only SELECT queries are allowed".toList
  else stmt.walk.forM (checkItem lower cfg (stmt.cteNames lower))

variable (parse : Text → Except Text (List (Option Node)))

def checkQuery (sql : Text) : Except Text Unit :=
  match parse sql with
  | .error exc => .error ("could not parse the query: ".toList ++ exc)
  | .ok statements =>
    match statements.filterMap id with
    | [stmt] => checkStatement lower cfg stmt
    | _ => .error "send exactly one SELECT statement".toList

def statements (sql : Text) : List Node :=
  match parse sql with
  | .error _ => []
  | .ok statements => statements.filterMap id

def tablesRead (sql : Text) : List TableRef := (statements parse sql).flatMap (Node.reads lower [])

/-- A table that the server reads is called, without a schema, what some common table expression is called. -/
def Stray (sql : Text) (ref : TableRef) : Prop :=
  ref ∈ tablesRead lower parse sql ∧ Skipped lower ((statements parse sql).flatMap (Node.cteNames lower)) ref

end

/-! ## All that is below is met -/

/-- It is met below another one, or is that one. -/
inductive Within (x : Item) : Item → Prop where
  | refl : Within x x
  | child {item below : Item} (mem : below ∈ item.children) (within : Within x below) : Within x item

def queueSize (queue : List Item) : Nat := (queue.map Item.size).sum

theorem queueSize_append (queue queue' : List Item) :
    queueSize (queue ++ queue') = queueSize queue + queueSize queue' := by
  rw [queueSize, List.map_append, List.sum_append]
  rfl

theorem queueSize_nodes (nodes : Nodes) : queueSize nodes.items = nodes.size := by
  refine @Nodes.rec (fun _ => True) (fun nodes => queueSize nodes.items = nodes.size) (fun _ => True)
    (fun _ _ _ => trivial) (fun _ _ _ _ _ => trivial) rfl (fun node rest _ ih => ?_) trivial
    (fun _ _ _ _ _ => trivial) nodes
  show node.size + queueSize rest.items = node.size + rest.size
  rw [ih]

theorem queueSize_ctes (ctes : Ctes) : queueSize ctes.items = ctes.size := by
  refine @Ctes.rec (fun _ => True) (fun _ => True) (fun ctes => queueSize ctes.items = ctes.size)
    (fun _ _ _ => trivial) (fun _ _ _ _ _ => trivial) trivial (fun _ _ _ _ => trivial) rfl
    (fun name query rest _ ih => ?_) ctes
  show query.size + 1 + queueSize rest.items = query.size + rest.size + 1
  omega

theorem queueSize_children (item : Item) : queueSize item.children < item.size := by
  cases item with
  | node expr =>
    cases expr with
    | table ref children => exact Nat.lt_succ_of_le (queueSize_nodes children).le
    | expr kind ctes children =>
      have nodes := queueSize_nodes children
      cases ctes with
      | nil =>
        show queueSize children.items < children.size + 0 + 2
        omega
      | cons name query rest =>
        show queueSize (children.items ++ [.with_ (.cons name query rest)]) <
          children.size + (Ctes.cons name query rest).size + 2
        rw [queueSize_append]
        show _ + ((Ctes.cons name query rest).size + 1 + 0) < _
        omega
  | with_ ctes => exact Nat.lt_succ_of_le (queueSize_ctes ctes).le
  | cte name query => exact Nat.lt_succ_of_le (Nat.le_refl _)

theorem mem_bfs {x item : Item} {fuel : Nat} {queue : List Item} (enough : queueSize queue ≤ fuel)
    (mem : item ∈ queue) (within : Within x item) : x ∈ bfs fuel queue := by
  induction fuel generalizing item queue with
  | zero =>
    have positive : ∀ item : Item, 0 < item.size := fun item =>
      Nat.lt_of_le_of_lt (Nat.zero_le _) (queueSize_children item)
    obtain ⟨before, after, rfl⟩ := List.append_of_mem mem
    have some_ := positive item
    rw [queueSize_append] at enough
    change queueSize before + (item.size + queueSize after) ≤ 0 at enough
    omega
  | succ fuel ih =>
    cases queue with
    | nil => cases mem
    | cons first rest =>
      have smaller := queueSize_children first
      have less : queueSize (rest ++ first.children) ≤ fuel := by
        rw [queueSize_append]
        change first.size + queueSize rest ≤ fuel + 1 at enough
        omega
      rw [bfs]
      rcases List.mem_cons.mp mem with rfl | later
      · cases within with
        | refl => exact List.mem_cons_self
        | child below within =>
          exact List.mem_cons_of_mem _ (ih less (List.mem_append_right _ below) within)
      · exact List.mem_cons_of_mem _ (ih less (List.mem_append_left _ later) within)

theorem mem_walk {stmt : Node} {x : Item} (within : Within x (.node stmt)) : x ∈ stmt.walk :=
  mem_bfs (Nat.le_of_eq (Nat.add_zero _)) List.mem_cons_self within

/-! ## What is read is met -/

section
variable {lower : Text → Text}

def Met (ref : TableRef) (items : List Item) : Prop :=
  ∃ children, ∃ item ∈ items, Within (.node (.table ref children)) item

theorem Met.mono {ref : TableRef} {items items' : List Item} (met : Met ref items)
    (more : ∀ item ∈ items, item ∈ items') : Met ref items' := by
  obtain ⟨children, item, mem, within⟩ := met
  exact ⟨children, item, more item mem, within⟩

theorem Met.below {ref : TableRef} {item : Item} (met : Met ref item.children) : Met ref [item] := by
  obtain ⟨children, below, mem, within⟩ := met
  exact ⟨children, item, List.mem_cons_self, .child mem within⟩

def Scoped (ref : TableRef) (scope : Scope) : Prop := ∃ cte ∈ scope, ref ∈ cte.2

theorem mem_resolve {scope : Scope} {ref t : TableRef} (mem : t ∈ ref.resolve lower scope) :
    t = ref ∨ Scoped t scope := by
  rw [TableRef.resolve] at mem
  split_ifs at mem
  · split at mem
    · next cte found => exact .inr ⟨cte, List.mem_of_find?_eq_some found, mem⟩
    · exact .inl (List.mem_singleton.mp mem)
  · exact .inl (List.mem_singleton.mp mem)

theorem met_of_reads (node : Node) : ∀ scope t, t ∈ node.reads lower scope →
    Met t [.node node] ∨ Scoped t scope := by
  refine @Node.rec (fun node => ∀ scope t, t ∈ node.reads lower scope →
      Met t [.node node] ∨ Scoped t scope)
    (fun nodes => ∀ scope t, t ∈ nodes.reads lower scope → Met t nodes.items ∨ Scoped t scope)
    (fun ctes => ∀ scope t, Scoped t (ctes.define lower scope) → Met t ctes.items ∨ Scoped t scope)
    (fun ref children ih scope t mem => ?_) (fun kind ctes children ihCtes ih scope t mem => ?_)
    (fun scope t mem => by cases mem) (fun node rest ihNode ih scope t mem => ?_)
    (fun scope t inScope => .inr inScope) (fun name query rest ihQuery ih scope t inScope => ?_) node
  · rw [Node.reads] at mem
    rcases List.mem_append.mp mem with here | there
    · rcases mem_resolve here with rfl | inScope
      · exact .inl ⟨children, _, List.mem_cons_self, .refl⟩
      · exact .inr inScope
    · exact (ih scope t there).imp_left Met.below
  · rw [Node.reads] at mem
    rcases ih _ t mem with met | inScope
    · refine .inl (Met.below (met.mono fun item below => ?_))
      cases ctes with
      | nil => exact below
      | cons => exact List.mem_append_left _ below
    · refine (ihCtes scope t inScope).imp_left fun met => Met.below ?_
      cases ctes with
      | nil => exact (by obtain ⟨_, _, mem, _⟩ := met; cases mem)
      | cons name query rest =>
        have clause : Met t [.with_ (.cons name query rest)] := Met.below met
        exact clause.mono fun item => List.mem_append_right _
  · rw [Nodes.reads] at mem
    rcases List.mem_append.mp mem with here | there
    · refine (ihNode scope t here).imp_left fun met => met.mono fun item mem => ?_
      obtain rfl := List.mem_singleton.mp mem
      exact List.mem_cons_self
    · exact (ih scope t there).imp_left fun met => met.mono fun item => List.mem_cons_of_mem _
  · rw [Ctes.define] at inScope
    rcases ih _ t inScope with met | ⟨cte, mem, reads⟩
    · exact .inl (met.mono fun item => List.mem_cons_of_mem _)
    · rcases List.mem_cons.mp mem with rfl | older
      · rcases ihQuery _ t reads with met | ⟨cte, mem, reads⟩
        · have below : Met t [.cte name query] := Met.below met
          refine .inl (below.mono fun item mem => ?_)
          obtain rfl := List.mem_singleton.mp mem
          exact List.mem_cons_self
        · rcases List.mem_cons.mp mem with rfl | older
          · cases reads
          · exact .inr ⟨cte, older, reads⟩
      · exact .inr ⟨cte, older, reads⟩

/-! ## The tables that were chosen -/

/-! ## What is accepted -/

theorem forM_eq_ok {α ε : Type} {f : α → Except ε Unit} {xs : List α} :
    xs.forM f = .ok () ↔ ∀ x ∈ xs, f x = .ok () := by
  induction xs with
  | nil => exact iff_of_true rfl fun _ mem => (by cases mem)
  | cons x xs ih =>
    rw [List.forall_mem_cons, ← ih]
    show (f x >>= fun _ => xs.forM f) = .ok () ↔ _
    cases f x with
    | error e => simp [bind, Except.bind]
    | ok => simp [bind, Except.bind]

variable {cfg : Cfg} {parse : Text → Except Text (List (Option Node))} {sql : Text}

theorem checkTable_eq_ok {ctes : List Text} {ref : TableRef} :
    checkTable lower cfg ctes ref = .ok () ↔ Skipped lower ctes ref ∨ Available lower cfg ref := by
  rw [checkTable]
  split_ifs with skipped elsewhere listed
  · exact iff_of_true rfl (.inl skipped)
  · obtain ⟨cat, mem, other⟩ := elsewhere
    exact iff_of_false (by simp) (not_or.mpr ⟨skipped, fun available => other (available.1 cat mem)⟩)
  · refine iff_of_true rfl (.inr ⟨fun cat mem => ?_, listed⟩)
    by_contra other
    exact elsewhere ⟨cat, mem, other⟩
  · exact iff_of_false (by simp) (not_or.mpr ⟨skipped, fun available => listed available.2⟩)

theorem checkStatement_ok {stmt : Node} (accepted : checkStatement lower cfg stmt = .ok ()) {t : TableRef}
    (read : t ∈ stmt.reads lower []) :
    Skipped lower (stmt.cteNames lower) t ∨ Available lower cfg t := by
  rw [checkStatement] at accepted
  split_ifs at accepted
  rcases met_of_reads stmt [] t read with ⟨children, item, mem, within⟩ | ⟨_, mem, _⟩
  · obtain rfl := List.mem_singleton.mp mem
    exact checkTable_eq_ok.mp (forM_eq_ok.mp accepted _ (mem_walk within))
  · cases mem

theorem checkQuery_ok (accepted : checkQuery lower cfg parse sql = .ok ()) :
    ∃ stmt, statements parse sql = [stmt] ∧ checkStatement lower cfg stmt = .ok () := by
  rw [checkQuery] at accepted
  rw [statements]
  split at accepted
  · cases accepted
  · next parsed _ =>
    split at accepted
    · next stmt one => exact ⟨stmt, one, accepted⟩
    · cases accepted

/-- The server reads only tables that are available for an accepted query, if and only if those are that it
reads under the name of a common table expression and without a schema. -/
theorem available_iff (accepted : checkQuery lower cfg parse sql = .ok ()) :
    (∀ ref ∈ tablesRead lower parse sql, Available lower cfg ref) ↔
      ∀ ref, Stray lower parse sql ref → Available lower cfg ref := by
  constructor
  · exact fun all ref stray => all ref stray.1
  · intro strays ref read
    obtain ⟨stmt, one, accepted⟩ := checkQuery_ok accepted
    have reads := read
    rw [tablesRead, one, List.flatMap_singleton] at reads
    rcases checkStatement_ok accepted reads with skipped | available
    · refine strays ref ⟨read, ?_⟩
      rw [one, List.flatMap_singleton]
      exact skipped
    · exact available

def small (text : Text) : Text := text.map Char.toLower

/-- A project that has one table. -/
def prices : Cfg := ⟨"market".toList, ["dbo.prices".toList]⟩

def parsed (sql : Text) : Except Text (List (Option Node)) :=
  if sql = "WITH a AS (SELECT * FROM Prices) SELECT * FROM a JOIN dbo.prices ON 1 = 1".toList then
    .ok [some (.expr .select
      (.cons "a".toList (.expr .select .nil (.cons (.table ⟨none, none, "Prices".toList⟩ .nil) .nil)) .nil)
      (.cons (.table ⟨none, none, "a".toList⟩ .nil)
        (.cons (.table ⟨none, some "dbo".toList, "prices".toList⟩ .nil) .nil)))]
  else if sql = "WITH spt_values AS (SELECT 1 AS x) SELECT * FROM master..spt_values".toList then
    .ok [some (.expr .select (.cons "spt_values".toList (.expr .select .nil .nil) .nil)
      (.cons (.table ⟨some "master".toList, none, "spt_values".toList⟩ .nil) .nil))]
  else .error "Expecting SELECT".toList

/-- A query that reads the table by way of a common table expression, and beside it. -/
theorem joined_available : (∀ ref ∈ tablesRead small parsed
      "WITH a AS (SELECT * FROM Prices) SELECT * FROM a JOIN dbo.prices ON 1 = 1".toList,
        Available small prices ref) ↔
    ∀ ref, Stray small parsed
      "WITH a AS (SELECT * FROM Prices) SELECT * FROM a JOIN dbo.prices ON 1 = 1".toList ref →
        Available small prices ref :=
  available_iff (by with_unfolding_all rfl)

/-- A query that reads a table of another database, which is called what a common table expression of the
query is called, is accepted. -/
theorem master_read : ¬∀ sql, checkQuery small prices parsed sql = .ok () →
    ∀ ref ∈ tablesRead small parsed sql, Available small prices ref := by
  intro all
  have here := all "WITH spt_values AS (SELECT 1 AS x) SELECT * FROM master..spt_values".toList
    (by with_unfolding_all rfl) ⟨some "master".toList, none, "spt_values".toList⟩
    (by with_unfolding_all decide)
  exact absurd here (by with_unfolding_all decide)

end

end FreeSwarm.Sql
