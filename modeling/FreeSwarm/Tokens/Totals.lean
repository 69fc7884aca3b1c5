import FreeSwarm.Foundation.Machine
import FreeSwarm.Foundation.Text
import FreeSwarm.Foundation.Totals
import Mathlib.Algebra.Order.Ring.Rat

/-!
# Token totals

Tokens are counted by model in hourly buckets. What comes in is gathered in memory and added to a table from
time to time. An engine publishes what it has processed since it was started: each sample of it adds what it
is ahead of the largest counters that were seen before, which are kept in memory as well.
-/

namespace FreeSwarm.Tokens

open FreeSwarm.Foundation

abbrev Text := List Char

/-! ## Counts -/

structure Counts where
  prompt : Nat
  completion : Nat
  requests : Nat
  unmetered : Nat
  deriving DecidableEq

inductive Column where
  /-- `prompt_tokens`. -/
  | prompt
  /-- `completion_tokens`. -/
  | completion
  | requests
  | unmetered

namespace Counts

def get (counts : Counts) : Column → Nat
  | .prompt => counts.prompt
  | .completion => counts.completion
  | .requests => counts.requests
  | .unmetered => counts.unmetered

def zero : Counts := ⟨0, 0, 0, 0⟩

variable (counts counts' : Counts)

/-- The sums. -/
def add : Counts where
  prompt := counts.prompt + counts'.prompt
  completion := counts.completion + counts'.completion
  requests := counts.requests + counts'.requests
  unmetered := counts.unmetered + counts'.unmetered

def larger : Counts where
  prompt := max counts.prompt counts'.prompt
  completion := max counts.completion counts'.completion
  requests := max counts.requests counts'.requests
  unmetered := max counts.unmetered counts'.unmetered

def ahead : Counts where
  prompt := counts.prompt - counts'.prompt
  completion := counts.completion - counts'.completion
  requests := counts.requests - counts'.requests
  unmetered := counts.unmetered - counts'.unmetered

@[simp]
theorem get_zero (column : Column) : zero.get column = 0 := by cases column <;> rfl

@[simp]
theorem get_add (counts counts' : Counts) (column : Column) :
    (counts.add counts').get column = counts.get column + counts'.get column := by cases column <;> rfl

theorem get_larger (counts counts' : Counts) (column : Column) :
    (counts.larger counts').get column = counts.get column + (counts'.ahead counts).get column := by
  have ahead : ∀ n n' : Nat, max n n' = n + (n' - n) := by omega
  cases column <;> exact ahead _ _

end Counts

/-! ## Buckets -/

/-- `SOURCES`. -/
inductive Source where
  | local_
  | network
  | external
  deriving DecidableEq

def bucketS : Rat := 3600

structure Key where
  /-- `bucket`: when the hour begins. -/
  bucket : Rat
  source : Source
  model : Text
  deriving DecidableEq

/-- The key that is counted under at a time. -/
def Key.at_ (source : Source) (model : Text) (ts : Rat) : Key :=
  ⟨(ts / bucketS).floor * bucketS, source, model⟩

/-- The values of a row. -/
structure Tally where
  counts : Counts
  firstTs : Rat
  lastTs : Rat
  deriving DecidableEq

/-- The values of a row with more added. -/
def Tally.add (tally more : Tally) : Tally :=
  ⟨tally.counts.add more.counts, min tally.firstTs more.firstTs, max tally.lastTs more.lastTs⟩

abbrev Rows := Dict Key Tally

/-! ## Engines -/

/-- `requests` of the stats of an engine. -/
structure Stats where
  promptTokensTotal : Option Nat
  completionTokensTotal : Option Nat
  completed : Option Nat

def Stats.counters (stats : Stats) : Option Counts :=
  match stats.promptTokensTotal, stats.completionTokensTotal with
  | some prompt, some completion => some ⟨prompt, completion, stats.completed.getD 0, 0⟩
  | _, _ => none

def forgetAfterS : Rat := 600

/-- What `flush` comes to. -/
inductive FlushOutcome where
  | committed
  | failed (executed : Nat)

structure Recorded where
  key : Key
  counts : Counts
  deriving DecidableEq

/-- The totals of a computer. The processes of its engines are told apart by `Engine`. -/
structure Totals (Engine : Type) where
  pending : Rows
  table : Rows
  open_ : Option Rows
  /-- `_marks`: the largest counters of an engine, and when it was seen. -/
  marks : Dict Engine (Counts × Rat)
  owed : List (Engine × Counts)
  largest : Dict Engine Counts
  log : List Recorded
  deriving DecidableEq

/-- What happens. -/
inductive TotalsEvent (Engine : Type) where
  /-- `record_usage`, for a model that is no engine of this computer. -/
  | usage (source : Source) (model : Text) (counts : Counts) (ts : Rat)
  /-- `observe_engine`, until it gives the lock back. -/
  | sample (engine : Engine) (stats : Stats) (now : Rat)
  | note (sample : Nat) (ts : Rat)
  /-- `forget_engines`. -/
  | forget (keep : List Engine) (now : Rat)
  | flush (outcome : FlushOutcome)
  | restart

namespace Totals
variable {Engine : Type} [DecidableEq Engine] (modelOf : Engine → Text) (s : Totals Engine)

/-- What a reader of the table finds: the connection is the one that flushes. -/
def stored : Rows := s.open_.getD s.table

def record (source : Source) (model : Text) (counts : Counts) (ts : Rat) : Totals Engine :=
  if model = [] then s
  else
    let key := Key.at_ source model ts
    { s with
      pending := s.pending.upsert Tally.add key ⟨counts, ts, ts⟩
      log := s.log ++ [⟨key, counts⟩] }

/-- `observe_engine`, under the lock: the counters are kept where they are larger than those before. -/
def sample (engine : Engine) (now : Counts) (time : Rat) : Totals Engine :=
  let prev := (s.marks.get? engine).elim .zero Prod.fst
  let more := now.ahead prev
  { s with
    marks := s.marks.set engine (prev.larger now, time)
    owed := if more = .zero then s.owed else s.owed ++ [(engine, more)]
    largest := s.largest.set engine (((s.largest.get? engine).getD .zero).larger now) }

/-- `flush`. Where it fails, the rows are put back, and the transaction stays open. -/
def flush (outcome : FlushOutcome) : Totals Engine :=
  let rows := s.pending.entries
  if rows = [] then s
  else match outcome with
    | .committed => { s with
        pending := .empty
        table := s.stored.upserts Tally.add rows
        open_ := none }
    | .failed executed => { s with
        pending := Dict.empty.upserts Tally.add rows
        open_ := if executed = 0 then s.open_
          else some (s.stored.upserts Tally.add (rows.take executed)) }

/-- What happens, if it can. -/
def step : TotalsEvent Engine → Option (Totals Engine)
  | .usage source model counts ts =>
    if source = .local_ then none else some (s.record source model counts ts)
  | .sample engine stats now =>
    match stats.counters with
    | none => some s
    | some counters => if modelOf engine = [] then some s else some (s.sample engine counters now)
  | .note sample ts =>
    match s.owed[sample]? with
    | some (engine, more) =>
      some ({ s with owed := s.owed.eraseIdx sample }.record .local_ (modelOf engine) more ts)
    | none => none
  | .forget keep now => some { s with
      marks := s.marks.filter fun engine mark => ¬(engine ∉ keep ∧ mark.2 < now - forgetAfterS) }
  | .flush outcome => some (s.flush outcome)
  | .restart => some { s with
      pending := .empty
      open_ := none
      marks := .empty
      owed := [] }

/-- Nothing was counted. -/
def fresh : Totals Engine := ⟨.empty, .empty, none, .empty, [], .empty, []⟩

/-- What is recorded under some keys. -/
def logged (p : Key → Prop) [DecidablePred p] (column : Column) : Nat :=
  ((s.log.filter fun r => p r.key).map fun r => r.counts.get column).sum

def under (p : Key → Prop) [DecidablePred p] (column : Column) (rows : Rows) : Nat :=
  rows.total fun key tally => if p key then tally.counts.get column else 0

def Local (model : Text) (key : Key) : Prop := key.source = .local_ ∧ key.model = model

instance (model : Text) : DecidablePred (Local model) := fun _ => inferInstanceAs (Decidable (_ ∧ _))

def ofModel (model : Text) (column : Column) (engine : Engine) (counts : Counts) : Nat :=
  if modelOf engine = model then counts.get column else 0

structure Counted : Prop where
  once : ∀ (p : Key → Prop) [DecidablePred p] (column : Column),
    under p column s.stored + under p column s.pending = s.logged p column
  /-- What is stored and what is pending of a model of this computer are the largest counters of its engines,
  up to what the last samples were ahead. -/
  engines : ∀ (model : Text) (column : Column),
    under (Local model) column s.stored + under (Local model) column s.pending +
        pairTotal (ofModel modelOf model column) s.owed =
      s.largest.total (ofModel modelOf model column)

/-- An engine is sampled only as long as its largest counters are known, or for the first time; a flush fails
only before a row was written; and the control plane ends only when nothing is pending. -/
def Careful (s : Totals Engine) : TotalsEvent Engine → Prop
  | .sample engine _ _ => s.marks.get? engine = none → s.largest.get? engine = none
  | .flush (.failed executed) => executed = 0 ∨ s.pending = .empty
  | .restart => s.pending = .empty ∧ s.owed = []
  | _ => True

instance : ∀ ev, Decidable (s.Careful ev)
  | .sample _ _ _ => inferInstanceAs (Decidable (_ → _))
  | .flush (.failed executed) => inferInstanceAs (Decidable (executed = 0 ∨ s.pending = .empty))
  | .restart => inferInstanceAs (Decidable (s.pending = .empty ∧ s.owed = []))
  | .flush .committed | .usage _ _ _ _ | .note _ _ | .forget _ _ => inferInstanceAs (Decidable True)

end Totals

/-! ## What is kept -/

namespace Totals
variable {Engine : Type} {modelOf : Engine → Text} {s s' : Totals Engine}

variable (p : Key → Prop)

theorem under_upsert [DecidablePred p] (column : Column) (rows : Rows) (key : Key)
    (tally : Tally) : under p column (rows.upsert Tally.add key tally) =
      under p column rows + if p key then tally.counts.get column else 0 := by
  refine Dict.total_upsert _ fun key old more => ?_
  split_ifs
  · exact Counts.get_add _ _ _
  · rfl

theorem under_upserts [DecidablePred p] (column : Column) (rows : Rows)
    (more : Rows) : under p column (rows.upserts Tally.add more.entries) =
      under p column rows + under p column more := by
  refine Dict.total_upserts _ (fun key old more => ?_) more.entries
  split_ifs
  · exact Counts.get_add _ _ _
  · rfl

theorem logged_record [DecidablePred p] (column : Column) {source : Source}
    {model : Text} {counts : Counts} {ts : Rat} (named : model ≠ []) :
    (s.record source model counts ts).logged p column = s.logged p column +
      if p (.at_ source model ts) then counts.get column else 0 := by
  rw [record, if_neg named, logged, logged, List.filter_append, List.map_append, List.sum_append]
  congr 1
  rw [List.filter_cons]
  by_cases meets : p (.at_ source model ts) <;> simp [meets]

theorem once_record (once : ∀ (p : Key → Prop) [DecidablePred p] (column : Column),
      under p column s.table + under p column s.pending = s.logged p column)
    {source : Source} {model : Text} {counts : Counts} {ts : Rat} (p : Key → Prop) [DecidablePred p]
    (column : Column) : under p column (s.record source model counts ts).table +
      under p column (s.record source model counts ts).pending =
        (s.record source model counts ts).logged p column := by
  by_cases named : model = []
  · rw [record, if_pos named]
    exact once p column
  · rw [logged_record p column named, record, if_neg named, under_upsert, ← Nat.add_assoc]
    exact congrArg (· + _) (once p column)

theorem pairTotal_sample (model : Text) (column : Column) (engine : Engine) (more : Counts)
    (owed : List (Engine × Counts)) :
    pairTotal (ofModel modelOf model column) (if more = .zero then owed else owed ++ [(engine, more)]) =
      pairTotal (ofModel modelOf model column) owed + ofModel modelOf model column engine more := by
  split_ifs with nothing
  · rw [nothing, ofModel, Counts.get_zero, ite_self, Nat.add_zero]
  · rw [pairTotal_append, pairTotal_cons, pairTotal_nil, Nat.add_zero]

variable [DecidableEq Engine]

/-- Everything is counted once, no transaction is open, and no engine is counted from another point than
its largest counters. -/
structure Kept (modelOf : Engine → Text) (s : Totals Engine) : Prop where
  closed : s.open_ = none
  once : ∀ (p : Key → Prop) [DecidablePred p] (column : Column),
    under p column s.table + under p column s.pending = s.logged p column
  /-- What was recorded of a model of this computer, and what its samples were ahead since, are the largest
  counters of its engines. -/
  engines : ∀ (model : Text) (column : Column),
    s.logged (Local model) column + pairTotal (ofModel modelOf model column) s.owed =
      s.largest.total (ofModel modelOf model column)
  known : ∀ engine mark, s.marks.get? engine = some mark → s.largest.get? engine = some mark.1
  named : ∀ pair ∈ s.owed, modelOf pair.1 ≠ []

theorem kept_fresh : Kept modelOf (fresh : Totals Engine) where
  closed := rfl
  once _ _ _ := rfl
  engines _ _ := rfl
  known _ _ found := by cases found
  named _ mem := by cases mem

theorem Kept.stored (kept : Kept modelOf s) : s.stored = s.table := by
  rw [Totals.stored, kept.closed]
  rfl

theorem Kept.counted (kept : Kept modelOf s) : Counted modelOf s where
  once p _ column := by
    rw [kept.stored]
    exact kept.once p column
  engines model column := by
    rw [kept.stored, kept.once]
    exact kept.engines model column

theorem Kept.usage (kept : Kept modelOf s) {source : Source} (other : source ≠ .local_) (model : Text)
    (counts : Counts) (ts : Rat) : Kept modelOf (s.record source model counts ts) := by
  by_cases named : model = []
  · rw [record, if_pos named]
    exact kept
  · refine ⟨?_, fun p _ column => once_record kept.once p column, fun model' column => ?_, ?_, ?_⟩
    · rw [record, if_neg named]
      exact kept.closed
    · rw [logged_record _ _ named, if_neg fun is_ => other is_.1, record, if_neg named]
      exact kept.engines model' column
    · rw [record, if_neg named]
      exact kept.known
    · rw [record, if_neg named]
      exact kept.named

theorem Kept.note (kept : Kept modelOf s) {i : Nat} {engine : Engine} {more : Counts}
    (there : s.owed[i]? = some (engine, more)) (ts : Rat) :
    Kept modelOf ({ s with owed := s.owed.eraseIdx i }.record .local_ (modelOf engine) more ts) := by
  have named : modelOf engine ≠ [] := kept.named _ (List.mem_of_getElem? there)
  refine ⟨?_, fun p _ column => once_record (s := { s with owed := s.owed.eraseIdx i }) kept.once p column,
    fun model column => ?_, ?_, ?_⟩
  · rw [record, if_neg named]
    exact kept.closed
  · have erased : pairTotal (ofModel modelOf model column) (s.owed.eraseIdx i) +
        ofModel modelOf model column engine more = pairTotal (ofModel modelOf model column) s.owed :=
      pairTotal_eraseIdx _ there
    have engines := kept.engines model column
    rw [logged_record _ _ named, record, if_neg named]
    show s.logged (Local model) column + _ + pairTotal _ (s.owed.eraseIdx i) = s.largest.total _
    have same : (if Local model (.at_ .local_ (modelOf engine) ts) then more.get column else 0) =
        ofModel modelOf model column engine more := by
      by_cases is_ : modelOf engine = model <;> simp [Local, Key.at_, ofModel, is_]
    rw [same]
    omega
  · rw [record, if_neg named]
    exact kept.known
  · rw [record, if_neg named]
    exact fun pair mem => kept.named pair (List.mem_of_mem_eraseIdx mem)

theorem total_sample (model : Text) (column : Column) (engine : Engine) (now : Counts)
    (largest : Dict Engine Counts) :
    (largest.set engine (((largest.get? engine).getD .zero).larger now)).total
        (ofModel modelOf model column) = largest.total (ofModel modelOf model column) +
      ofModel modelOf model column engine (now.ahead ((largest.get? engine).getD .zero)) := by
  have set : (largest.set engine (((largest.get? engine).getD .zero).larger now)).total
      (ofModel modelOf model column) + (largest.get? engine).elim 0 (ofModel modelOf model column engine) =
      largest.total (ofModel modelOf model column) +
        ofModel modelOf model column engine (((largest.get? engine).getD .zero).larger now) :=
    Dict.total_set _
  have before : (largest.get? engine).elim 0 (ofModel modelOf model column engine) =
      ofModel modelOf model column engine ((largest.get? engine).getD .zero) := by
    cases largest.get? engine with
    | none => exact (by rw [Option.getD_none, ofModel, Counts.get_zero, ite_self]; rfl)
    | some counts => rfl
  have grows : ofModel modelOf model column engine (((largest.get? engine).getD .zero).larger now) =
      ofModel modelOf model column engine ((largest.get? engine).getD .zero) +
        ofModel modelOf model column engine (now.ahead ((largest.get? engine).getD .zero)) := by
    rw [ofModel, ofModel, ofModel]
    split_ifs
    · exact Counts.get_larger _ _ _
    · rfl
  omega

theorem Kept.sample (kept : Kept modelOf s) {engine : Engine} (named : modelOf engine ≠ [])
    (first : s.marks.get? engine = none → s.largest.get? engine = none) (now : Counts) (time : Rat) :
    Kept modelOf (s.sample engine now time) := by
  -- what is known of the engine are its largest counters
  have prev : (s.marks.get? engine).elim .zero Prod.fst = (s.largest.get? engine).getD .zero := by
    cases marked : s.marks.get? engine with
    | none =>
      rw [first marked]
      rfl
    | some mark =>
      rw [kept.known engine mark marked]
      rfl
  rw [Totals.sample, prev]
  refine ⟨kept.closed, kept.once, fun model column => ?_, fun other mark found => ?_, fun pair mem => ?_⟩
  · dsimp only
    rw [pairTotal_sample, total_sample, ← kept.engines model column, Nat.add_assoc]
    rfl
  · rw [Dict.get?_set] at found ⊢
    split_ifs at found ⊢ with same
    · cases found
      rfl
    · exact kept.known other mark found
  · dsimp only at mem
    split_ifs at mem
    · exact kept.named pair mem
    · rcases mem_concat mem with old | rfl
      · exact kept.named pair old
      · exact named

theorem Kept.flush (kept : Kept modelOf s) {outcome : FlushOutcome} (careful : s.Careful (.flush outcome)) :
    Kept modelOf (s.flush outcome) := by
  unfold Totals.flush
  dsimp only
  split_ifs with nothing
  · exact kept
  · cases outcome with
    | committed =>
      refine { kept with closed := rfl, once := fun p _ column => ?_ }
      dsimp only
      rw [under_upserts, kept.stored]
      exact kept.once p column
    | failed executed =>
      have unwritten : executed = 0 := careful.resolve_right fun empty => nothing (congrArg _ empty)
      refine { kept with closed := ?_, once := fun p _ column => ?_ }
      · rw [unwritten]
        exact kept.closed
      · dsimp only
        rw [under_upserts]
        have once := kept.once p column
        rw [show under p column Dict.empty = 0 from rfl, Nat.zero_add]
        exact once

theorem Kept.step (kept : Kept modelOf s) {ev : TotalsEvent Engine} (careful : s.Careful ev)
    (taken : s.step modelOf ev = some s') : Kept modelOf s' := by
  cases ev with
  | usage source model counts ts =>
    obtain ⟨other, rfl⟩ := of_unless taken
    exact kept.usage other model counts ts
  | sample engine stats now =>
    rw [Totals.step] at taken
    split at taken
    · cases taken
      exact kept
    · next counters _ =>
      split_ifs at taken with named
      · cases taken
        exact kept
      · cases taken
        exact kept.sample named careful counters now
  | note sample ts =>
    rw [Totals.step] at taken
    split at taken
    · next engine more there =>
      cases taken
      exact kept.note there ts
    · cases taken
  | forget keep now =>
    cases taken
    exact { kept with
      known := fun engine mark found => kept.known engine mark (Dict.get?_filter_eq_some.mp found).1 }
  | flush outcome =>
    cases taken
    exact kept.flush careful
  | restart =>
    cases taken
    obtain ⟨pending, owed⟩ := careful
    refine ⟨rfl, fun p _ column => ?_, fun model column => ?_, fun _ _ found => (by cases found),
      fun _ mem => (by cases mem)⟩
    · have once := kept.once p column
      rw [pending] at once
      exact once
    · have engines := kept.engines model column
      rw [owed] at engines
      exact engines

def oneModel : Nat → Text := fun _ => "qwen".toList

end Totals
end FreeSwarm.Tokens
