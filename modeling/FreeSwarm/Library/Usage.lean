import FreeSwarm.Foundation.Machine
import FreeSwarm.Foundation.Text
import Mathlib.Logic.Function.Basic

/-!
# Evidence of the modules

A candidate is linked to the versions that the library has of the modules that its text imports, when it is submitted.
Its scoring run loads the modules that the library has later, and those that they load. The links are what ran if
nothing of this has changed, and nothing else is loaded.
-/

namespace FreeSwarm.Library.Usage

open FreeSwarm.Foundation

abbrev Text := List Char

variable {Id Code : Type} [DecidableEq Id]

/-! ## Model -/

inductive Status where
  | active
  | quarantined
  | retired
  deriving DecidableEq

structure Module (Code : Type) where
  version : Nat
  code : Code
  status : Status

abbrev Modules (Code : Type) := Text → Option (Module Code)

/-- The modules of `module_files`, which also gives the quarantined ones, with a banner. -/
def moduleFiles (modules : Modules Code) : Modules Code := fun name =>
  (modules name).filter fun m => m.status = .active ∨ m.status = .quarantined

def versionOf (modules : Modules Code) (name : Text) : Option Nat := (modules name).map Module.version

structure Links (Id Code : Type) where
  modules : Modules Code
  codes : Id → Option Code
  /-- `lib_usage`. -/
  usage : Id → Text → Option Nat
  /-- The library when a candidate was submitted, and at its scoring run. -/
  submitted : Id → Modules Code
  ran : Id → Option (Modules Code)

inductive Event (Id Code : Type) where
  | submit (id : Id) (code : Code)
  /-- The scoring run starts, of a candidate that waited for a slot, or of one that is run again. -/
  | run (id : Id)
  /-- A module is saved, and stays quarantined or not. -/
  | save (name : Text) (code : Code) (status : Status)
  | setStatus (name : Text) (status : Status)
  | remove (name : Text)

section Running

-- `imported_modules`, and what code loads of the library as it runs.
variable (imports loads : Code → List Text)

/-- `record_usage`. -/
def recordUsage (modules : Modules Code) (code : Code) : Text → Option Nat := fun name =>
  if name ∈ imports code then versionOf modules name else none

namespace Links

def step (s : Links Id Code) : Event Id Code → Option (Links Id Code)
  | .submit id code =>
    if (s.codes id).isSome then none
    else some { s with
      codes := Function.update s.codes id (some code)
      usage := Function.update s.usage id (recordUsage imports s.modules code)
      submitted := Function.update s.submitted id s.modules }
  | .run id => (s.codes id).map fun _ => { s with ran := Function.update s.ran id (some s.modules) }
  | .save name code status =>
    let version := ((versionOf s.modules name).map (· + 1)).getD 1
    some { s with modules := Function.update s.modules name (some ⟨version, code, status⟩) }
  | .setStatus name status => (s.modules name).map fun m =>
      { s with modules := Function.update s.modules name (some { m with status }) }
  | .remove name => some { s with modules := Function.update s.modules name none }

def empty : Links Id Code := ⟨fun _ => none, fun _ => none, fun _ _ => none, fun _ _ => none, fun _ => none⟩

end Links

/-! ## Results -/

/-- The modules that a run loads, by itself or through others. -/
inductive Loads (modules : Modules Code) (code : Code) : Text → Prop where
  | first {name : Text} (mem : name ∈ loads code) (found : (moduleFiles modules name).isSome) : Loads modules code name
  | next {name name' : Text} {m : Module Code} (before : Loads modules code name)
      (found : moduleFiles modules name = some m) (mem : name' ∈ loads m.code)
      (found' : (moduleFiles modules name').isSome) : Loads modules code name'

variable (s : Links Id Code)

/-- The links of each candidate that ran are the versions that it loaded. -/
def Evidence : Prop :=
  ∀ id modules code, s.ran id = some modules → s.codes id = some code → ∀ name version,
    s.usage id name = some version ↔ Loads loads modules code name ∧ versionOf modules name = some version

/-- What a candidate's text imports is as it was submitted and not retired, and is all that it loads, and they load. -/
structure Settled (id : Id) (code : Code) : Prop where
  same : ∀ name ∈ imports code, versionOf s.modules name = versionOf (s.submitted id) name
  kept : ∀ name ∈ imports code, ∀ m, s.modules name = some m → m.status ≠ .retired
  read : ∀ name, (moduleFiles s.modules name).isSome → (name ∈ loads code ↔ name ∈ imports code)
  closed : ∀ name ∈ imports code, ∀ m, moduleFiles s.modules name = some m →
    ∀ name' ∈ loads m.code, (moduleFiles s.modules name').isSome → name' ∈ imports code

def Meets : Event Id Code → Prop
  | .run id => ∀ code, s.codes id = some code → Settled imports loads s id code
  | _ => True

def Kept : Prop :=
  Evidence loads s ∧ (∀ id, s.codes id = none → s.ran id = none) ∧
    ∀ id code, s.codes id = some code → s.usage id = recordUsage imports (s.submitted id) code

variable {imports loads} {s s' : Links Id Code}

omit [DecidableEq Id] in
theorem Settled.loads_iff {id : Id} {code : Code} (settled : Settled imports loads s id code) (name : Text) :
    Loads loads s.modules code name ↔ name ∈ imports code ∧ (moduleFiles s.modules name).isSome := by
  constructor
  · intro loaded
    induction loaded with
    | first mem found => exact ⟨(settled.read _ found).mp mem, found⟩
    | next before found mem found' ih => exact ⟨settled.closed _ ih.1 _ found _ mem found', found'⟩
  · exact fun ⟨mem, found⟩ => .first ((settled.read _ found).mpr mem) found

omit [DecidableEq Id] in
theorem Settled.usage_iff {id : Id} {code : Code} (settled : Settled imports loads s id code) (name : Text)
    (version : Nat) : recordUsage imports (s.submitted id) code name = some version ↔
      Loads loads s.modules code name ∧ versionOf s.modules name = some version := by
  rw [settled.loads_iff, recordUsage]
  split
  next mem =>
    rw [← settled.same name mem]
    refine ⟨fun found => ⟨⟨mem, ?_⟩, found⟩, And.right⟩
    obtain ⟨m, here, -⟩ := Option.map_eq_some_iff.mp found
    have status := settled.kept name mem m here
    rw [moduleFiles, here, Option.filter_some, if_pos]
    · rfl
    · cases at_ : m.status <;> simp [at_] at status ⊢
  next out => simp [out]

theorem Kept.step (kept : Kept imports loads s) {ev : Event Id Code} (meets : Meets imports loads s ev)
    (taken : s.step imports ev = some s') : Kept imports loads s' := by
  obtain ⟨evidence, waits, links⟩ := kept
  cases ev with
  | submit id code =>
    obtain ⟨new, rfl⟩ := of_unless taken
    have absent : s.ran id = none := waits id (Option.not_isSome_iff_eq_none.mp new)
    refine ⟨fun id' modules code' ran here => ?_, fun id' none_ => ?_, fun id' code' here => ?_⟩ <;>
      by_cases same : id' = id
    · subst same
      rw [absent] at ran
      cases ran
    · simp only [Function.update_of_ne same] at here ⊢
      exact evidence id' modules code' ran here
    · subst same
      exact absent
    · exact waits id' (by simpa only [Function.update_of_ne same] using none_)
    · subst same
      simp only [Function.update_self] at here ⊢
      rw [Option.some.inj here]
    · simp only [Function.update_of_ne same] at here ⊢
      exact links id' code' here
  | run id =>
    obtain ⟨code, here, rfl⟩ := Option.map_eq_some_iff.mp taken
    refine ⟨fun id' modules code' ran here' name version => ?_, fun id' none_ => ?_, links⟩ <;>
      by_cases same : id' = id
    · subst same
      obtain rfl : s.modules = modules := by simpa using ran
      cases here.symm.trans here'
      show s.usage id' name = _ ↔ _
      rw [links id' code here]
      exact (meets code here).usage_iff name version
    · exact evidence id' modules code' (by simpa only [Function.update_of_ne same] using ran) here' name version
    · rw [same, here] at none_
      cases none_
    · simpa only [Function.update_of_ne same] using waits id' none_
  | save name code status =>
    cases taken
    exact ⟨evidence, waits, links⟩
  | setStatus name status =>
    obtain ⟨m, -, rfl⟩ := Option.map_eq_some_iff.mp taken
    exact ⟨evidence, waits, links⟩
  | remove name =>
    cases taken
    exact ⟨evidence, waits, links⟩

end Running

/-! ## A module that is saved while a candidate waits -/

end FreeSwarm.Library.Usage
