import FreeSwarm.Board.Tasks
import FreeSwarm.Foundation.Machine
import Mathlib.Logic.Function.Basic

/-!
# The blackboard

Agents share values under keys of their project. A write may name the version that it expects, and is
refused when another one is stored. An agent that reads a value, modifies it and writes it with the
version that it read changes exactly the value it saw, because each accepted write makes a version
that was not there before.
-/

namespace FreeSwarm.Board

open FreeSwarm.Foundation

structure Entry (Value : Type) where
  projectId : Text
  key : Text
  value : Value
  version : Nat
  updatedBy : Text
  updatedAt : Time

structure SetValue (Value : Type) where
  value : Value
  updatedBy : Text
  expectVersion : Option Int

structure HttpError where
  status : Nat
  detail : String

section

variable {Value : Type}

variable (scope key : Text) (entries : List (Entry Value))

def Entry.IsAt (e : Entry Value) : Prop := e.projectId = scope ∧ e.key = key

instance Entry.decidableIsAt (scope key : Text) : DecidablePred fun e : Entry Value => e.IsAt scope key :=
  fun _ => inferInstanceAs (Decidable (_ ∧ _))

def entryAt (entries : List (Entry Value)) : Option (Entry Value) :=
  entries.find? fun e => e.IsAt scope key

def storedVersion : Nat :=
  ((entryAt scope key entries).map Entry.version).getD 0

def storedValue : Option Value :=
  (entryAt scope key entries).map Entry.value

def upsert (e : Entry Value) (entries : List (Entry Value)) : List (Entry Value) :=
  if (entryAt e.projectId e.key entries).isSome then
    updateWhere (Entry.IsAt e.projectId e.key) (fun _ => e) entries
  else entries ++ [e]

def nextVersion : Nat :=
  match entryAt scope key entries with
  | some row => row.version + 1
  | none => 1

/-- The request to set a value: the version is compared first, and the write makes the next one. -/
def setState (req : SetValue Value) (now : Time) (entries : List (Entry Value)) :
    Except HttpError (List (Entry Value) × Nat) :=
  match req.expectVersion with
  | some expected =>
    if (storedVersion scope key entries : Int) ≠ expected then
      .error ⟨409, "version conflict: stored " ++ toString (storedVersion scope key entries) ++
        ", expected " ++ toString expected⟩
    else .ok (write, nextVersion scope key entries)
  | none => .ok (write, nextVersion scope key entries)
where
  write : List (Entry Value) :=
    upsert {
      projectId := scope, key := key, value := req.value, version := nextVersion scope key entries
      updatedBy := req.updatedBy, updatedAt := now } entries

def getState : Except HttpError (Entry Value) :=
  match entryAt scope key entries with
  | none => .error ⟨404, "no such key"⟩
  | some row => .ok row

/-! ## Clients -/

/-- What an agent read of a key. -/
structure View (Value : Type) where
  scope : Text
  key : Text
  value : Option Value
  version : Nat

/-- An accepted write. -/
structure Change (Value : Type) where
  scope : Text
  key : Text
  modify : Option Value → Value

structure Blackboard (Agent Value : Type) where
  entries : List (Entry Value)
  views : Agent → Option (View Value)
  accepted : List (Change Value)

inductive StateRequest (Agent Value : Type) where
  | set (scope key : Text) (req : SetValue Value) (now : Time)
  | read (agent : Agent) (scope key : Text)
  | write (agent : Agent) (modify : Option Value → Value) (updatedBy : Text) (now : Time)

namespace Blackboard
variable {Agent : Type} [DecidableEq Agent] (b : Blackboard Agent Value)

variable (scope key : Text)

def set (req : SetValue Value) (modify : Option Value → Value) (now : Time) :
    Blackboard Agent Value :=
  match setState scope key req now b.entries with
  | .error _ => b
  | .ok (entries, _) =>
    { b with entries := entries, accepted := b.accepted ++ [⟨scope, key, modify⟩] }

/-- What an agent gets to read. -/
def view : View Value :=
  match getState scope key b.entries with
  | .error _ => ⟨scope, key, none, 0⟩
  | .ok row => ⟨scope, key, some row.value, row.version⟩

def step : StateRequest Agent Value → Option (Blackboard Agent Value)
  | .set scope key req now => some (b.set scope key req (fun _ => req.value) now)
  | .read agent scope key =>
    some { b with views := Function.update b.views agent (some (b.view scope key)) }
  | .write agent modify updatedBy now =>
    (b.views agent).map fun seen =>
      b.set seen.scope seen.key ⟨modify seen.value, updatedBy, some seen.version⟩ modify now

def changes : List (Change Value) :=
  b.accepted.filter fun c => c.scope = scope ∧ c.key = key

end Blackboard

def applyAll (changes : List (Change Value)) (value : Option Value) : Option Value :=
  changes.foldl (fun value c => some (c.modify value)) value

/-! ## What a write does to the entries -/

variable {entries : List (Entry Value)} {scope key : Text}

theorem entryAt_upsert (e : Entry Value) (at_ : e.IsAt scope key) :
    entryAt scope key (upsert e entries) = some e := by
  obtain ⟨rfl, rfl⟩ := at_
  unfold upsert
  split
  · next there =>
    obtain ⟨row, found⟩ := Option.isSome_iff_exists.mp there
    have changed : (updateWhere (Entry.IsAt e.projectId e.key) (fun _ => e) entries).find?
        (fun row => Entry.IsAt e.projectId e.key row) = _ := find?_updateWhere_self fun _ _ => ⟨rfl, rfl⟩
    rw [show entries.find? _ = some row from found, Option.map_some] at changed
    exact changed
  · next absent =>
    have none_ : entryAt e.projectId e.key entries = none := by simpa using absent
    rw [entryAt, List.find?_append, show entries.find? _ = none from none_, Option.none_or]
    exact List.find?_cons_of_pos (by simp [Entry.IsAt])

theorem entryAt_upsert_other (e : Entry Value) (other : ¬e.IsAt scope key) :
    entryAt scope key (upsert e entries) = entryAt scope key entries := by
  unfold upsert
  split
  · apply find?_updateWhere_other
    intro row same
    refine ⟨fun at_ => other ?_, other⟩
    exact ⟨same.1.symm.trans at_.1, same.2.symm.trans at_.2⟩
  · rw [entryAt, List.find?_append, List.find?_cons_of_neg (by simpa using other), List.find?_nil,
      Option.or_none]
    rfl

def Versioned (entries : List (Entry Value)) : Prop := ∀ e ∈ entries, 0 < e.version

theorem nextVersion_eq : nextVersion scope key entries = storedVersion scope key entries + 1 := by
  unfold nextVersion storedVersion
  cases entryAt scope key entries with
  | none => rfl
  | some row => rfl

theorem storedVersion_eq_zero (versioned : Versioned entries) :
    storedVersion scope key entries = 0 ↔ storedValue scope key entries = none := by
  unfold storedVersion storedValue
  cases found : entryAt scope key entries with
  | none => simp
  | some row =>
    have positive := versioned row (List.mem_of_find?_eq_some found)
    simp only [Option.map_some, Option.getD_some, reduceCtorEq, iff_false]
    omega

theorem versioned_upsert {e : Entry Value} (versioned : Versioned entries) (positive : 0 < e.version) :
    Versioned (upsert e entries) := by
  intro row mem
  unfold upsert at mem
  split at mem
  · obtain ⟨row', mem', same⟩ := mem_updateWhere.mp mem
    rw [← same]
    split
    · exact positive
    · exact versioned row' mem'
  · cases List.mem_append.mp mem with
    | inl old => exact versioned row old
    | inr new =>
      rw [List.mem_singleton.mp new]
      exact positive

/-- What an accepted write does: the version that it expects is stored, the key has its value under the
next version, and no other key is touched. -/
structure Writes (scope key : Text) (req : SetValue Value) (entries entries' : List (Entry Value))
    (version : Nat) : Prop where
  expected : ∀ v, req.expectVersion = some v → (storedVersion scope key entries : Int) = v
  answer : version = storedVersion scope key entries + 1
  version_ : storedVersion scope key entries' = storedVersion scope key entries + 1
  value : storedValue scope key entries' = some req.value
  others : ∀ scope' key', (scope', key') ≠ (scope, key) →
    entryAt scope' key' entries' = entryAt scope' key' entries
  versioned : Versioned entries → Versioned entries'

theorem setState_ok {req : SetValue Value} {now : Time} {entries' : List (Entry Value)}
    {version : Nat} (ok : setState scope key req now entries = .ok (entries', version)) :
    Writes scope key req entries entries' version := by
  have result : (setState.write scope key req now entries, nextVersion scope key entries) =
      (entries', version) ∧
      ∀ v, req.expectVersion = some v → (storedVersion scope key entries : Int) = v := by
    unfold setState at ok
    split at ok
    · next expected given =>
      split at ok
      · cases ok
      · next same =>
        refine ⟨Except.ok.inj ok, fun v given' => ?_⟩
        rw [given] at given'
        rw [← Option.some.inj given']
        exact not_not.mp same
    · next given =>
      refine ⟨Except.ok.inj ok, fun v given' => ?_⟩
      rw [given] at given'
      cases given'
  obtain ⟨same, expected⟩ := result
  obtain ⟨rfl, rfl⟩ := Prod.mk.inj same
  have found : entryAt scope key (setState.write scope key req now entries) = some _ :=
    entryAt_upsert _ ⟨rfl, rfl⟩
  constructor
  · exact expected
  · exact nextVersion_eq
  · rw [storedVersion, found]
    exact nextVersion_eq
  · rw [storedValue, found]
    rfl
  · intro scope' key' other
    apply entryAt_upsert_other
    rintro ⟨rfl, rfl⟩
    exact other rfl
  · intro versioned
    apply versioned_upsert versioned
    rw [nextVersion_eq]
    exact Nat.succ_pos _

theorem setState_refused (scope key : Text) (req : SetValue Value) (now : Time)
    (entries : List (Entry Value)) :
    (∃ error, setState scope key req now entries = .error error) ↔
      ∃ v, req.expectVersion = some v ∧ (storedVersion scope key entries : Int) ≠ v := by
  unfold setState
  cases given : req.expectVersion with
  | none => simp
  | some v =>
    dsimp only
    split
    · next differs => exact ⟨fun _ => ⟨v, rfl, differs⟩, fun _ => ⟨_, rfl⟩⟩
    · next same =>
      constructor
      · rintro ⟨error, no⟩
        cases no
      · rintro ⟨v', given', differs⟩
        rw [← Option.some.inj given'] at differs
        exact absurd differs same

/-! ## No change is lost -/

namespace Blackboard
variable {Agent : Type} [DecidableEq Agent] {start b b' : Blackboard Agent Value}

/-- Nothing was read or written so far, and every entry has a version. -/
structure Begins (start : Blackboard Agent Value) : Prop where
  versioned : Versioned start.entries
  unread : ∀ agent, start.views agent = none
  unwritten : start.accepted = []

/-- What was read is not newer than what is stored, and is what is stored when it is as new. -/
def Current (entries : List (Entry Value)) (seen : View Value) : Prop :=
  seen.version ≤ storedVersion seen.scope seen.key entries ∧
    (seen.version = storedVersion seen.scope seen.key entries →
      seen.value = storedValue seen.scope seen.key entries)

/-- The entries are what the accepted writes made of the first ones. -/
structure Kept (start b : Blackboard Agent Value) : Prop where
  versioned : Versioned b.entries
  value : ∀ scope key, storedValue scope key b.entries =
    applyAll (b.changes scope key) (storedValue scope key start.entries)
  version : ∀ scope key, storedVersion scope key b.entries =
    storedVersion scope key start.entries + (b.changes scope key).length
  views : ∀ agent seen, b.views agent = some seen → Current b.entries seen

omit [DecidableEq Agent] in
theorem kept_begins (begins : start.Begins) : Kept start start where
  versioned := begins.versioned
  value scope key := by
    rw [changes, begins.unwritten]
    rfl
  version scope key := by
    rw [changes, begins.unwritten]
    rfl
  views agent seen read := by
    rw [begins.unread agent] at read
    cases read

theorem applyAll_append (changes : List (Change Value)) (c : Change Value) (value : Option Value) :
    applyAll (changes ++ [c]) value = some (c.modify (applyAll changes value)) := by
  rw [applyAll, List.foldl_append]
  rfl

theorem filter_here (accepted : List (Change Value)) (modify : Option Value → Value) :
    (accepted ++ [(⟨scope, key, modify⟩ : Change Value)]).filter (fun c => c.scope = scope ∧ c.key = key) =
      accepted.filter (fun c => c.scope = scope ∧ c.key = key) ++ [⟨scope, key, modify⟩] := by
  rw [List.filter_append, List.filter_cons_of_pos (by simp), List.filter_nil]

theorem filter_other {scope' key' : Text} (accepted : List (Change Value))
    (modify : Option Value → Value) (differs : (scope', key') ≠ (scope, key)) :
    (accepted ++ [(⟨scope, key, modify⟩ : Change Value)]).filter (fun c => c.scope = scope' ∧ c.key = key') =
      accepted.filter (fun c => c.scope = scope' ∧ c.key = key') := by
  rw [List.filter_append, List.filter_cons_of_neg, List.filter_nil, List.append_nil]
  intro same
  obtain ⟨rfl, rfl⟩ := of_decide_eq_true same
  exact differs rfl

omit [DecidableEq Agent] in
theorem kept_set {req : SetValue Value} {modify : Option Value → Value} {now : Time}
    (kept : Kept start b)
    (modifies : (∀ v, req.expectVersion = some v → (storedVersion scope key b.entries : Int) = v) →
      req.value = modify (storedValue scope key b.entries)) :
    Kept start (b.set scope key req modify now) := by
  unfold set
  split
  · exact kept
  · next entries' version ok =>
    have writes := setState_ok ok
    constructor
    · exact writes.versioned kept.versioned
    · intro scope' key'
      by_cases same : (scope', key') = (scope, key)
      · obtain ⟨rfl, rfl⟩ := Prod.mk.inj same
        rw [writes.value, modifies writes.expected, kept.value, changes, changes, filter_here,
          applyAll_append]
      · have stays : storedValue scope' key' entries' = storedValue scope' key' b.entries := by
          rw [storedValue, writes.others scope' key' same]
          rfl
        rw [stays, kept.value, changes, changes, filter_other _ _ same]
    · intro scope' key'
      by_cases same : (scope', key') = (scope, key)
      · obtain ⟨rfl, rfl⟩ := Prod.mk.inj same
        rw [writes.version_, kept.version, changes, changes, filter_here, List.length_append]
        rfl
      · have stays : storedVersion scope' key' entries' = storedVersion scope' key' b.entries := by
          rw [storedVersion, writes.others scope' key' same]
          rfl
        rw [stays, kept.version, changes, changes, filter_other _ _ same]
    · intro agent seen read
      obtain ⟨old, current⟩ := kept.views agent seen read
      by_cases same : (seen.scope, seen.key) = (scope, key)
      · obtain ⟨sameScope, sameKey⟩ := Prod.mk.inj same
        rw [sameScope, sameKey] at old
        -- the new version was never read
        refine ⟨?_, fun equal => ?_⟩
        · rw [sameScope, sameKey, writes.version_]
          omega
        · rw [sameScope, sameKey, writes.version_] at equal
          omega
      · have stays := writes.others seen.scope seen.key same
        rw [Current, storedVersion, storedValue, stays]
        exact ⟨old, current⟩

omit [DecidableEq Agent] in
theorem current_view (scope key : Text) : Current b.entries (b.view scope key) := by
  unfold view getState
  split
  · next absent =>
    split at absent
    · next none_ =>
      refine ⟨Nat.zero_le _, fun _ => ?_⟩
      show none = storedValue scope key b.entries
      rw [storedValue, none_]
      rfl
    · cases absent
  · next row found =>
    split at found
    · cases found
    · next row' found' =>
      obtain rfl := Except.ok.inj found
      refine ⟨?_, fun _ => ?_⟩
      · show row'.version ≤ storedVersion scope key b.entries
        rw [storedVersion, found']
        exact Nat.le_refl _
      · show some row'.value = storedValue scope key b.entries
        rw [storedValue, found']
        rfl

theorem kept_step {request : StateRequest Agent Value} (kept : Kept start b)
    (taken : b.step request = some b') : Kept start b' := by
  cases request with
  | set scope key req now =>
    rw [← Option.some.inj taken]
    exact kept_set kept fun _ => rfl
  | read agent scope key =>
    rw [← Option.some.inj taken]
    refine ⟨kept.versioned, kept.value, kept.version, fun other seen read => ?_⟩
    by_cases same : other = agent
    · rw [same] at read
      obtain rfl := Option.some.inj ((Function.update_self agent _ b.views).symm.trans read)
      exact current_view scope key
    · exact kept.views other seen ((Function.update_of_ne same _ b.views).symm.trans read)
  | write agent modify updatedBy now =>
    obtain ⟨seen, read, taken⟩ := Option.map_eq_some_iff.mp taken
    rw [← taken]
    apply kept_set kept
    intro expected
    have same := expected seen.version rfl
    have current := (kept.views agent seen read).2 (Int.ofNat.inj same.symm)
    show modify seen.value = _
    rw [current]

structure CompareAndSet (start b : Blackboard Agent Value) : Prop where
  value : ∀ scope key, storedValue scope key b.entries =
    applyAll (b.changes scope key) (storedValue scope key start.entries)
  version : ∀ scope key, storedVersion scope key b.entries =
    storedVersion scope key start.entries + (b.changes scope key).length
  absent : ∀ scope key, storedVersion scope key b.entries = 0 ↔
    storedValue scope key b.entries = none
  accepts : ∀ scope key req now entries version,
    setState scope key req now b.entries = .ok (entries, version) →
      Writes scope key req b.entries entries version
  refuses : ∀ scope key req now error, setState scope key req now b.entries = .error error →
    ∃ v, req.expectVersion = some v ∧ (storedVersion scope key b.entries : Int) ≠ v

/-- In every state that the requests of any agents reach, no accepted change is lost. -/
theorem compareAndSet (begins : start.Begins) (reached : Reaches step Always start b) :
    CompareAndSet start b := by
  have kept : Kept start b := reached.invariant (Kept start) (kept_begins begins)
    fun _ _ _ kept _ taken => kept_step kept taken
  exact
    { value := kept.value
      version := kept.version
      absent := fun _ _ => storedVersion_eq_zero kept.versioned
      accepts := fun _ _ _ _ _ _ ok => setState_ok ok
      refuses := fun scope key req now error refused =>
        (setState_refused scope key req now b.entries).mp ⟨error, refused⟩ }

/-- A counter without a value yet. -/
def counter : Blackboard Nat Nat := { entries := [], views := fun _ => none, accepted := [] }

/-- One more. -/
def increment (value : Option Nat) : Nat := value.getD 0 + 1

/-- Two agents read a counter before each of them writes; the one that is refused reads again. -/
def increments : List (StateRequest Nat Nat) :=
  [.read 0 [] ['n'], .read 1 [] ['n'], .write 0 increment [] 1, .write 1 increment [] 2,
    .read 1 [] ['n'], .write 1 increment [] 3]

theorem begins_counter : counter.Begins where
  versioned _ mem := absurd mem List.not_mem_nil
  unread _ := rfl
  unwritten := rfl

/-- Both are counted, and the second write was refused once. -/
theorem compareAndSet_counter : ∃ b, increments.foldlM step counter = some b ∧
    storedValue [] ['n'] b.entries = some 2 ∧ CompareAndSet counter b := by
  have runs : (increments.foldlM step counter).isSome := rfl
  obtain ⟨b, last⟩ := Option.isSome_iff_exists.mp runs
  refine ⟨b, last, ?_, ?_⟩
  · have value : (increments.foldlM step counter).map (fun b => storedValue [] ['n'] b.entries) =
        some (some 2) := rfl
    rw [last] at value
    exact Option.some.inj value
  · exact compareAndSet begins_counter
      (Reaches.refl.run increments (fun _ _ _ => trivial) last)

end Blackboard

end

end FreeSwarm.Board
