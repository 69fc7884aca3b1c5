import FreeSwarm.Foundation.Worklist
import FreeSwarm.Library.ImportTold

/-!
# The modules that a script reaches

`reachable_modules` follows the imports that are read, from the script and through the modules of the project. Running
the script follows its import statements, and those of the modules that are loaded. What is loaded but not reached is
behind an import that is not read.
-/

namespace FreeSwarm.Library

open FreeSwarm.Foundation Pattern

/-- The library of a project. -/
structure Package where
  modules : List (Text × Script)
  unique : (modules.map Prod.fst).Nodup
  /-- What the package has in `__all__`. -/
  listed : List Text

/-- `by_name`: the sources under the names of the modules. -/
def Package.byName (lib : Package) : List (Text × Text) := lib.modules.map fun m => (m.1, spelled m.2)

/-- `reachable_modules`. `order` says which of the wanted names is popped next. -/
def reachableModules (u : Unicode) (order : Nat → Nat) (byName : List (Text × Text)) (code : Text) :
    List (Text × Text) :=
  let wanted := importedModules u code
  if wanted = [] then [] else (Work.mk wanted []).run byName (importedModules u) order 0

/-- A chain of imports that are read leads from the text to the module. -/
def Traced (u : Unicode) (byName : List (Text × Text)) (code : Text) : Text → Prop :=
  Reached byName (importedModules u) (importedModules u code)

/-- What is kept is what the imports lead to that are read, in whatever order they are followed. -/
theorem mem_reachableModules (u : Unicode) (order : Nat → Nat) (byName : List (Text × Text)) (code name : Text) :
    name ∈ (reachableModules u order byName code).map Prod.fst ↔ Traced u byName code name := by
  rw [Traced, ← mem_run_iff order, reachableModules]
  by_cases none_ : importedModules u code = []
  · rw [if_pos none_, none_, Work.run, if_pos rfl]
  · rw [if_neg none_]

/-! ## Running a script -/

section Running
variable (u : Unicode) (lib : Package)

variable (inside : Bool) (script : Script)

/-- The modules that a part of a script loads. -/
def Piece.loads : Piece → List Text
  | .other _ => []
  | .statement s => s.loads u lib.listed inside

def loadsOf : List Text := script.flatMap (Piece.loads u lib inside)

/-- Running the script loads the module, directly or through others. -/
def Loads : Text → Prop :=
  Reached lib.modules (loadsOf u lib true) (loadsOf u lib false script)

/-- All that running the script loads is reached. -/
def Complete (order : Nat → Nat) (script : Script) : Prop :=
  ∀ name, Loads u lib script name → name ∈ (reachableModules u order lib.byName (spelled script)).map Prod.fst

/-- A statement of the script loads the module in a form that is not read, or where the search for imports does not come
to it. -/
def Unread (name : Text) : Prop :=
  ∃ front s back, script = front ++ .statement s :: back ∧ name ∈ s.loads u lib.listed inside ∧
    ¬((IMPORT_RE u).Comes (spelled script) (spelled (Piece.statement s :: back)) ∧ s.Told u (spelled back) name)

/-- A module of the library that the script, or a module that it loads, imports in a form that is not read. -/
def Missed (name : Text) : Prop :=
  (∃ source, entryOf lib.modules name = some source) ∧
    (Unread u lib false script name ∨
      ∃ m source, Loads u lib script m ∧ entryOf lib.modules m = some source ∧ Unread u lib true source name)

variable {u lib} {inside : Bool} {script : Script} {name : Text}

theorem exists_statement (mem : name ∈ loadsOf u lib inside script) :
    ∃ front s back, script = front ++ .statement s :: back ∧ name ∈ s.loads u lib.listed inside := by
  obtain ⟨piece, there, loads⟩ := List.mem_flatMap.mp mem
  obtain ⟨front, back, whole⟩ := List.append_of_mem there
  cases piece with
  | other => exact absurd loads List.not_mem_nil
  | statement s => exact ⟨front, s, back, whole, loads⟩

theorem mem_loadsOf_of_unread (unread : Unread u lib inside script name) : name ∈ loadsOf u lib inside script := by
  obtain ⟨front, s, back, rfl, loads, -⟩ := unread
  exact List.mem_flatMap.mpr ⟨.statement s, by simp, loads⟩

theorem reads_or_unread (mem : name ∈ loadsOf u lib inside script) :
    name ∈ importedModules u (spelled script) ∨ Unread u lib inside script name := by
  obtain ⟨front, s, back, whole, loads⟩ := exists_statement mem
  by_cases told : (IMPORT_RE u).Comes (spelled script) (spelled (Piece.statement s :: back)) ∧
      s.Told u (spelled back) name
  · exact .inl (reads_of_comes told.1 told.2.readsAt)
  · exact .inr ⟨front, s, back, whole, loads, told⟩

theorem entryOf_byName {source : Script} (found : entryOf lib.modules name = some source) :
    entryOf lib.byName name = some (spelled source) := by
  rw [Package.byName, entryOf_map, found]
  rfl

/-- All that running a script loads is reached if and only if each module that is imported in a form that is not read
is also reached by imports that are. -/
theorem complete_iff (u : Unicode) (lib : Package) (order : Nat → Nat) (script : Script) :
    Complete u lib order script ↔ ∀ name, Missed u lib script name → Traced u lib.byName (spelled script) name := by
  constructor
  · intro complete name missed
    refine (mem_reachableModules u order lib.byName _ name).mp (complete name ?_)
    obtain ⟨⟨source, found⟩, unread | ⟨m, source', loads, found', unread⟩⟩ := missed
    · exact .first (mem_loadsOf_of_unread unread) found
    · exact .next loads found' (mem_loadsOf_of_unread unread) found
  · intro covered name loads
    refine (mem_reachableModules u order lib.byName _ name).mpr ?_
    induction loads with
    | first mem found =>
      rcases reads_or_unread mem with reads | unread
      · exact .first reads (entryOf_byName found)
      · exact covered _ ⟨⟨_, found⟩, .inl unread⟩
    | next loads found mem found' ih =>
      rcases reads_or_unread mem with reads | unread
      · exact .next ih (entryOf_byName found) reads (entryOf_byName found')
      · exact covered _ ⟨⟨_, found'⟩, .inr ⟨_, _, loads, found, unread⟩⟩

end Running

/-! ## The second name of a statement -/

/-- Nothing is a letter beyond ASCII, and every identifier is kept as it is. -/
def ascii : Unicode := ⟨fun _ => false, id⟩

/-- `lib.` and a letter, as an entry of an `import` statement. -/
def libEntry (before : List Space) (c : Char) (is_ : isIdent c = true) : Entry Space Path :=
  { before := before
    name := { head := ⟨libWord, by simp [libWord], by simp [libWord, isIdent, isAscii, isLower]⟩
              tail := [([], [], ⟨[c], by simp, by simpa using is_⟩)] }
    as_ := none
    behind := [] }

/-- `import lib.a, lib.b`. -/
def twoImports : Script :=
  [.statement (.imports ⟨.space, []⟩ ⟨libEntry [] 'a' rfl, [libEntry [.space] 'b' rfl]⟩)]

def twoModules : Package := { modules := [(['a'], []), (['b'], [])], unique := by decide, listed := [] }

/-- The second module of a statement is not reached. -/
theorem complete_iff_not_always :
    ¬∀ (u : Unicode) (lib : Package) (order : Nat → Nat) (script : Script), Complete u lib order script := by
  intro all
  have loads : Loads ascii twoModules twoImports ['b'] := .first (v := []) (by decide) rfl
  have reached := all ascii twoModules (fun _ => 0) twoImports ['b'] loads
  rw [mem_reachableModules] at reached
  cases reached with
  | first mem => exact absurd mem (by with_unfolding_all decide)
  | next _ found link =>
    have empty := mem_of_entryOf found
    simp only [Package.byName, twoModules, spelled_nil, List.map_cons, List.map_nil, List.mem_cons, Prod.mk.injEq,
      List.not_mem_nil, or_false] at empty
    obtain ⟨-, rfl⟩ | ⟨-, rfl⟩ := empty
    · exact absurd link (by with_unfolding_all decide)
    · exact absurd link (by with_unfolding_all decide)

end FreeSwarm.Library
