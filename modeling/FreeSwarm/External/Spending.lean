import FreeSwarm.Foundation.Dict
import FreeSwarm.Foundation.Machine
import FreeSwarm.Foundation.Text
import Mathlib.Algebra.Order.Field.Rat
import Mathlib.Data.NNRat.Defs

/-!
# The spending limit of hosted models

A call of a hosted model is checked against what is spent today, waits until its provider takes another
request, and is written to a ledger with its cost when it is answered. The check is made once, before the
call waits, and the cost of a stream is on its last chunk.
-/

namespace FreeSwarm.External

open FreeSwarm.Foundation

abbrev Text := List Char

/-- A name `<id>@<provider>`, split. -/
structure ModelName where
  id : Text
  /-- `groq` or `openrouter`. -/
  provider : Text
  deriving DecidableEq

/-! ## Prices -/

structure Usage where
  promptTokens : Option Nat
  completionTokens : Option Nat
  /-- `cost`: what the provider says that it charges. -/
  cost : Option NNRat
  deriving DecidableEq

/-- The row of a model in the catalog of its provider. -/
structure Row where
  /-- `price_in`: US dollars for a million tokens of the prompt. -/
  priceIn : Option NNRat
  /-- `price_out`: US dollars for a million tokens of the answer. -/
  priceOut : Option NNRat
  deriving DecidableEq

def Row.priced (row : Row) : Bool := row.priceIn.isSome && row.priceOut.isSome

structure Price where
  priceIn : NNRat
  priceOut : NNRat

variable (config : Config) (price : Price)

def Price.row : Row := ⟨some price.priceIn, some price.priceOut⟩

def Price.tokens (usage : Usage) : NNRat :=
  ((usage.promptTokens.getD 0 : NNRat) * price.priceIn +
    (usage.completionTokens.getD 0 : NNRat) * price.priceOut) / 1000000

def Price.charge (usage : Usage) : NNRat := usage.cost.getD (price.tokens usage)

/-- `usd` of `_record`. -/
def usd (row : Option Row) (usage : Option Usage) : NNRat :=
  match usage with
  | none => 0
  | some usage =>
    match usage.cost, row with
    | some cost, _ => cost
    | none, some ⟨some priceIn, some priceOut⟩ => Price.tokens ⟨priceIn, priceOut⟩ usage
    | none, _ => 0

/-! ## The limit -/

/-- The settings that are looked at. -/
structure Config where
  enabled : List ModelName
  /-- `daily_limit_usd`. -/
  dailyLimit : Rat
  /-- `ideas_reserve_usd`. -/
  ideasReserve : Rat
  deriving DecidableEq

/-- The daily limit: the first of `limits`. -/
def Config.limit : Rat := max 0 config.dailyLimit

/-- What is held for ideas: the second of `limits`. -/
def Config.reserve : Rat := min config.limit (max 0 config.ideasReserve)

/-- `is_ideas`: the call is for ideas. -/
def IsIdeas (purpose : Text) : Prop := "ideas:".toList <+: purpose

instance : DecidablePred IsIdeas := fun _ => inferInstanceAs (Decidable (_ <+: _))

/-- Why a call is refused for what is spent. -/
inductive BudgetRefusal where
  | limit
  | search
  deriving DecidableEq

/-- `short`: what the console shows. -/
def BudgetRefusal.short : BudgetRefusal → Text
  | .limit => "daily limit reached -- resumes at midnight".toList
  | .search => "daily search budget spent -- resumes at midnight".toList

/-- `check_budget`, for what is spent today. -/
def checkBudget (spent : Rat) (purpose : Text) : Option BudgetRefusal :=
  if config.limit ≤ spent then some .limit
  else if ¬IsIdeas purpose ∧ config.limit - config.reserve ≤ spent then some .search
  else none

/-- The call may be sent when this is spent: the limit is not reached, and, unless the call is for ideas,
neither is what is held for them. -/
def Admits (spent : Rat) (purpose : Text) : Prop :=
  spent < config.limit ∧ (IsIdeas purpose ∨ spent < config.limit - config.reserve)

instance (config : Config) (spent : Rat) (purpose : Text) : Decidable (Admits config spent purpose) :=
  inferInstanceAs (Decidable (_ ∧ _))

theorem checkBudget_eq_none {config : Config} {spent : Rat} {purpose : Text} :
    checkBudget config spent purpose = none ↔ Admits config spent purpose := by
  rw [checkBudget, Admits]
  split_ifs with reached searched
  · exact iff_of_false (by simp) fun admits => absurd admits.1 (not_lt.mpr reached)
  · refine iff_of_false (by simp) fun admits => ?_
    rcases admits.2 with ideas | below
    · exact searched.1 ideas
    · exact absurd below (not_lt.mpr searched.2)
  · refine iff_of_true rfl ⟨not_le.mp reached, ?_⟩
    by_cases ideas : IsIdeas purpose
    · exact .inl ideas
    · exact .inr (not_le.mp fun spent_ => searched ⟨ideas, spent_⟩)

theorem Admits.mono {config : Config} {spent spent' : Rat} {purpose : Text}
    (admits : Admits config spent purpose) (less : spent' ≤ spent) : Admits config spent' purpose :=
  ⟨less.trans_lt admits.1, admits.2.imp_right less.trans_lt⟩

/-! ## Calls -/

def rateWaitMaxS : Rat := 60

def rateRetries : Nat := 4

/-- `_after_429`: how long a request waits that met the limit of the rate, if it is made again. It is given
what the answer says. -/
def after429 (wait : Option Rat) (attempt : Nat) : Option Rat :=
  let wait := max (1 / 2) (wait.getD (2 * (attempt + 1))) + (attempt + 1) / 4
  if rateWaitMaxS < wait ∨ rateRetries ≤ attempt then none else some wait

/-- Where a call is. -/
inductive Phase where
  | pacing
  | sent
  | reading (usage : Option Usage)
  | ended
  deriving DecidableEq

structure Call where
  name : ModelName
  purpose : Text
  streamed : Bool
  attempt : Nat
  phase : Phase
  generated : Option Usage
  deriving DecidableEq

def Call.read (call : Call) : Option Usage :=
  match call.phase with
  | .reading usage => usage
  | _ => none

structure LedgerRow where
  call : Nat
  day : Nat
  /-- `provider` and `model`. -/
  name : ModelName
  purpose : Text
  promptTokens : Option Nat
  completionTokens : Option Nat
  usd : NNRat
  deriving DecidableEq

/-- A request that was sent. -/
structure Sending where
  call : Nat
  purpose : Text
  config : Config
  spent : Rat
  deriving DecidableEq

/-- The console, its calls and its ledger. -/
structure Hosted where
  day : Nat
  config : Config
  keys : List Text
  /-- The rows that `_row` finds. -/
  rows : Dict ModelName Row
  ledger : List LedgerRow
  calls : List Call
  sends : List Sending
  deriving DecidableEq

/-- How a call ends without an answer that is returned whole. -/
inductive Closing where
  /-- The provider takes no other request for long: `_pace` raises. -/
  | quota
  | failed
  | finished
  | abandoned

def Closing.Can (closing : Closing) (phase : Phase) : Prop :=
  match closing, phase with
  | _, .ended => False
  | .abandoned, _ => True
  | .quota, .pacing => True
  | .failed, .sent => True
  | .failed, .reading _ => True
  | .finished, .reading _ => True
  | _, _ => False

instance : ∀ (closing : Closing) (phase : Phase), Decidable (closing.Can phase) := fun closing phase => by
  cases closing <;> cases phase <;> unfold Closing.Can <;> infer_instance

inductive CallEvent where
  /-- `_pace` is done, and the request is sent. -/
  | send
  | generate (usage : Usage)
  | limited (wait : Option Rat)
  | reply (usage : Option Usage)
  | begin_
  | chunk (usage : Option Usage)
  | close (closing : Closing)

/-- What happens. -/
inductive HostedEvent where
  | midnight
  | configure (config : Config) (keys : List Text)
  | catalog (rows : Dict ModelName Row)
  | call (name : ModelName) (purpose : Text) (streamed : Bool)
  | of_ (call : Nat) (ev : CallEvent)

/-- Why `_prepare` and `_headers` refuse a call. -/
inductive PrepareError where
  | notEnabled
  | unpriced
  | budget (refusal : BudgetRefusal)
  | noKey

namespace Hosted

variable (s : Hosted)

/-- `spent_today`. -/
def spent : NNRat := ((s.ledger.filter fun row => row.day = s.day).map LedgerRow.usd).sum

/-- `_prepare`, and `_headers` after it. -/
def prepare (name : ModelName) (purpose : Text) : Except PrepareError Unit :=
  if name ∉ s.config.enabled then .error .notEnabled
  else if (s.rows.get? name).any fun row => !row.priced then .error .unpriced
  else match checkBudget s.config s.spent purpose with
    | some refusal => .error (.budget refusal)
    | none => if name.provider ∉ s.keys then .error .noKey else .ok ()

variable (i : Nat) (call : Call)

/-- `_record`: the row that a call is written to the ledger with. -/
def record (usage : Option Usage) : LedgerRow where
  call := i
  day := s.day
  name := call.name
  purpose := call.purpose
  promptTokens := usage.bind Usage.promptTokens
  completionTokens := usage.bind Usage.completionTokens
  usd := External.usd (s.rows.get? call.name) usage

def end_ (rows : List LedgerRow) : Hosted :=
  { s with
    ledger := s.ledger ++ rows
    calls := s.calls.set i { call with phase := .ended } }

/-- A call ends early: a stream is written to the ledger with what was read of it. -/
def close : Hosted :=
  s.end_ i call (if call.streamed then [s.record i call call.read] else [])

def move : Hosted := { s with calls := s.calls.set i call }

def stepCall : CallEvent → Option Hosted
  | .send =>
    if call.phase = .pacing then some { s.move i { call with phase := .sent } with
      sends := s.sends ++ [⟨i, call.purpose, s.config, s.spent⟩] }
    else none
  | .generate usage =>
    if call.phase ≠ .pacing ∧ call.generated = none ∧ ∃ sending ∈ s.sends, sending.call = i then
      some (s.move i { call with generated := some usage })
    else none
  | .limited wait =>
    if call.phase = .sent ∧ call.generated = none then
      if (after429 wait call.attempt).isSome then
        some (s.move i { call with phase := .pacing, attempt := call.attempt + 1 })
      else some (s.close i call)
    else none
  | .reply usage =>
    if call.phase = .sent ∧ call.streamed = false then
      some (s.end_ i call [s.record i call usage])
    else none
  | .begin_ =>
    if call.phase = .sent ∧ call.streamed = true then
      some (s.move i { call with phase := .reading none })
    else none
  | .chunk usage =>
    match call.phase with
    | .reading before => some (s.move i { call with phase := .reading (usage.or before) })
    | _ => none
  | .close closing => if closing.Can call.phase then some (s.close i call) else none

/-- What happens, if it can. -/
def step : HostedEvent → Option Hosted
  | .midnight => some { s with day := s.day + 1 }
  | .configure config keys => some { s with config := config, keys := keys }
  | .catalog rows => some { s with rows := rows }
  | .call name purpose streamed =>
    match s.prepare name purpose with
    | .ok () => some { s with calls := s.calls ++ [⟨name, purpose, streamed, 0, .pacing, none⟩] }
    | .error _ => some s
  | .of_ i ev => s.calls[i]?.bind fun call => s.stepCall i call ev

/-- Nothing was called. -/
def fresh (config : Config) (keys : List Text) : Hosted := ⟨0, config, keys, .empty, [], [], []⟩

variable (price : ModelName → Price)

/-- The limit holds and the ledger is right. -/
structure Metered : Prop where
  sent : ∀ sending ∈ s.sends, Admits sending.config sending.spent sending.purpose
  /-- A call that ended, and that the provider generated an answer for, is in the ledger once, with what the
  provider charges. -/
  charged : ∀ (i : Nat) (call : Call) (usage : Usage), s.calls[i]? = some call → call.phase = .ended →
    call.generated = some usage → ∃ row, (s.ledger.filter fun row => row.call = i) = [row] ∧
      row.usd = (price call.name).charge usage
  open_ : ∀ (i : Nat) (call : Call), s.calls[i]? = some call → call.phase ≠ .ended →
    (s.ledger.filter fun row => row.call = i) = []
  due : ∀ row ∈ s.ledger, 0 < row.usd → ∃ sending ∈ s.sends, sending.call = row.call

/-- A call may be written to the ledger with a usage block: if the provider generated an answer for it, the
block is that of the answer, and the charge is on it or the catalog has the prices. What is spent then is
still below what each call that waits may spend. -/
def Settles (call : Call) (usage : Option Usage) : Prop :=
  (∀ generated ∈ call.generated, usage = some generated ∧
    (generated.cost = none → s.rows.get? call.name = some (price call.name).row)) ∧
  ∀ other ∈ s.calls, other.phase = .pacing →
    Admits s.config (s.spent + External.usd (s.rows.get? call.name) usage) other.purpose

/-- What happens to a call leaves the limit and the ledger right. -/
def Settled (i : Nat) (ev : CallEvent) : Prop :=
  ∀ call ∈ s.calls[i]?, match ev with
    | .generate _ => call.phase ≠ .ended
    | .limited wait => (after429 wait call.attempt).isSome → Admits s.config s.spent call.purpose
    | .reply usage => s.Settles price call usage
    | .close _ => s.Settles price call call.read
    | _ => True

/-- A call ends only when its usage block was read and leaves room for the calls that wait, the settings are
changed only when they leave room for them, a call waits again only when it might still be sent, and no
answer is generated for a call that ended. -/
def Careful (s : Hosted) : HostedEvent → Prop
  | .configure config _ => ∀ other ∈ s.calls, other.phase = .pacing →
      Admits config s.spent other.purpose
  | .of_ i ev => s.Settled price i ev
  | _ => True

instance (call : Call) (usage : Option Usage) : Decidable (s.Settles price call usage) :=
  inferInstanceAs (Decidable (_ ∧ _))

instance (i : Nat) : ∀ ev, Decidable (s.Settled price i ev)
  | .generate _ => inferInstanceAs (Decidable (∀ call ∈ s.calls[i]?, call.phase ≠ .ended))
  | .limited wait => inferInstanceAs (Decidable (∀ call ∈ s.calls[i]?,
      (after429 wait call.attempt).isSome → Admits s.config s.spent call.purpose))
  | .reply usage => inferInstanceAs (Decidable (∀ call ∈ s.calls[i]?, s.Settles price call usage))
  | .close _ => inferInstanceAs (Decidable (∀ call ∈ s.calls[i]?, s.Settles price call call.read))
  | .send | .begin_ | .chunk _ => inferInstanceAs (Decidable (∀ call ∈ s.calls[i]?, True))

instance : ∀ ev, Decidable (s.Careful price ev)
  | .configure config _ => inferInstanceAs (Decidable (∀ other ∈ s.calls, other.phase = .pacing →
      Admits config s.spent other.purpose))
  | .of_ i ev => inferInstanceAs (Decidable (s.Settled price i ev))
  | .midnight | .catalog _ | .call _ _ _ => inferInstanceAs (Decidable True)

end Hosted

/-! ## What is charged -/

@[simp]
theorem usd_none (row : Option Row) : usd row none = 0 := rfl

theorem usd_eq_charge {price : Price} {row : Option Row} {usage : Usage}
    (known : usage.cost = none → row = some price.row) : usd row (some usage) = price.charge usage := by
  rw [Price.charge]
  cases here : usage.cost with
  | some cost => simp [usd, here]
  | none => simp [usd, here, known here, Price.row]

namespace Hosted
variable {price : ModelName → Price} {s s' : Hosted} {i : Nat} {call call' : Call}

theorem spent_end_record (usage : Option Usage) :
    (s.end_ i call [s.record i call usage]).spent = s.spent + External.usd (s.rows.get? call.name) usage := by
  have today : ([s.record i call usage].filter fun row => row.day = s.day) = [s.record i call usage] := by
    simp [record]
  rw [spent, spent]
  show (((s.ledger ++ [s.record i call usage]).filter fun row => row.day = s.day).map LedgerRow.usd).sum = _
  rw [List.filter_append, today, List.map_append, List.sum_append]
  exact congrArg _ (List.sum_singleton)

theorem spent_end_nil : (s.end_ i call []).spent = s.spent := by
  rw [spent, spent, end_]
  dsimp only
  rw [List.append_nil]

/-- Each call that waits may be sent, and the ledger is right. -/
structure Kept (price : ModelName → Price) (s : Hosted) : Prop where
  metered : s.Metered price
  waits : ∀ call ∈ s.calls, call.phase = .pacing → Admits s.config s.spent call.purpose
  days : ∀ row ∈ s.ledger, row.day ≤ s.day
  known : ∀ row ∈ s.ledger, row.call < s.calls.length
  blank : ∀ call ∈ s.calls, call.phase = .pacing → call.generated = none
  plain : ∀ call ∈ s.calls, ∀ usage, call.phase = .reading usage → call.streamed = true
  sending : ∀ (i : Nat) (call : Call), s.calls[i]? = some call → call.phase ≠ .pacing →
    call.phase ≠ .ended → ∃ sending ∈ s.sends, sending.call = i

theorem kept_fresh (config : Config) (keys : List Text) : Kept price (fresh config keys) where
  metered := ⟨fun _ mem => (by cases mem), fun _ _ _ there => (by cases there),
    fun _ _ there => (by cases there), fun _ mem => (by cases mem)⟩
  waits _ mem := by cases mem
  days _ mem := by cases mem
  known _ mem := by cases mem
  blank _ mem := by cases mem
  plain _ mem := by cases mem
  sending _ _ there := by cases there

theorem Kept.move (kept : Kept price s) (there : s.calls[i]? = some call) (before : call.phase ≠ .ended)
    (after : call'.phase ≠ .ended)
    (waits : call'.phase = .pacing → Admits s.config s.spent call'.purpose ∧ call'.generated = none)
    (plain : ∀ usage, call'.phase = .reading usage → call'.streamed = true)
    (sent : call'.phase ≠ .pacing → ∃ sending ∈ s.sends, sending.call = i) :
    Kept price (s.move i call') where
  metered := by
    refine ⟨kept.metered.sent, fun j other usage here ended => ?_, fun j other here opened => ?_,
      kept.metered.due⟩
    · rw [Hosted.move, List.getElem?_set] at here
      split_ifs at here with same inside
      · cases here
        exact absurd ended after
      · exact kept.metered.charged j other usage here ended
    · rw [Hosted.move, List.getElem?_set] at here
      split_ifs at here with same inside
      · exact same ▸ kept.metered.open_ i call there before
      · exact kept.metered.open_ j other here opened
  waits other mem pacing := by
    rcases List.mem_or_eq_of_mem_set mem with old | rfl
    · exact kept.waits other old pacing
    · exact (waits pacing).1
  days := kept.days
  known row mem := by
    show row.call < (s.calls.set i call').length
    rw [List.length_set]
    exact kept.known row mem
  blank other mem pacing := by
    rcases List.mem_or_eq_of_mem_set mem with old | rfl
    · exact kept.blank other old pacing
    · exact (waits pacing).2
  plain other mem usage reading := by
    rcases List.mem_or_eq_of_mem_set mem with old | rfl
    · exact kept.plain other old usage reading
    · exact plain usage reading
  sending j other here away opened := by
    rw [Hosted.move, List.getElem?_set] at here
    split_ifs at here with same inside
    · cases here
      exact same ▸ sent away
    · exact kept.sending j other here away opened

theorem Kept.ends (kept : Kept price s) (there : s.calls[i]? = some call) (before : call.phase ≠ .ended)
    {rows : List LedgerRow} (own : ∀ row ∈ rows, row.call = i ∧ row.day = s.day)
    (charges : ∀ usage, call.generated = some usage → ∃ row, rows = [row] ∧
      row.usd = (price call.name).charge usage)
    (room : ∀ other ∈ s.calls, other.phase = .pacing →
      Admits s.config (s.end_ i call rows).spent other.purpose)
    (due : ∀ row ∈ rows, 0 < row.usd → call.phase ≠ .pacing) : Kept price (s.end_ i call rows) where
  metered := by
    have others : ∀ j, i ≠ j → (s.ledger ++ rows).filter (fun row => row.call = j) =
        s.ledger.filter fun row => row.call = j := by
      intro j other
      have none_ : rows.filter (fun row => row.call = j) = [] := by
        rw [List.filter_eq_nil_iff]
        intro row mem
        simp [(own row mem).1, other]
      rw [List.filter_append, none_, List.append_nil]
    have here_ : (s.ledger ++ rows).filter (fun row => row.call = i) = rows := by
      have all_ : rows.filter (fun row => row.call = i) = rows := by
        rw [List.filter_eq_self]
        intro row mem
        simp [(own row mem).1]
      rw [List.filter_append, kept.metered.open_ i call there before, all_, List.nil_append]
    refine ⟨kept.metered.sent, fun j other usage here ended generated => ?_,
      fun j other here opened => ?_, fun row mem some_ => ?_⟩
    · rw [end_, List.getElem?_set] at here
      split_ifs at here with same inside
      · cases here
        obtain ⟨row, only, cost⟩ := charges usage generated
        exact ⟨row, (same ▸ here_).trans only, cost⟩
      · obtain ⟨row, only, cost⟩ := kept.metered.charged j other usage here ended generated
        exact ⟨row, (others j same).trans only, cost⟩
    · rw [end_, List.getElem?_set] at here
      split_ifs at here with same inside
      · cases here
        exact absurd rfl opened
      · exact (others j same).trans (kept.metered.open_ j other here opened)
    · rcases List.mem_append.mp mem with old | new
      · exact kept.metered.due row old some_
      · rw [(own row new).1]
        exact kept.sending i call there (due row new some_) before
  waits other mem pacing := by
    rcases List.mem_or_eq_of_mem_set mem with old | rfl
    · exact room other old pacing
    · cases pacing
  days row mem := by
    rcases List.mem_append.mp mem with old | new
    · exact kept.days row old
    · exact (own row new).2.le
  known row mem := by
    show row.call < (s.calls.set i { call with phase := .ended }).length
    rw [List.length_set]
    rcases List.mem_append.mp mem with old | new
    · exact kept.known row old
    · rw [(own row new).1]
      exact (List.getElem?_eq_some_iff.mp there).1
  blank other mem pacing := by
    rcases List.mem_or_eq_of_mem_set mem with old | rfl
    · exact kept.blank other old pacing
    · cases pacing
  plain other mem usage reading := by
    rcases List.mem_or_eq_of_mem_set mem with old | rfl
    · exact kept.plain other old usage reading
    · cases reading
  sending j other here away opened := by
    rw [end_, List.getElem?_set] at here
    split_ifs at here with same inside
    · cases here
      exact absurd rfl opened
    · exact kept.sending j other here away opened

theorem Kept.recorded (kept : Kept price s) (there : s.calls[i]? = some call)
    (before : call.phase ≠ .ended) {usage : Option Usage} (settles : s.Settles price call usage)
    (due : usage ≠ none → call.phase ≠ .pacing) :
    Kept price (s.end_ i call [s.record i call usage]) := by
  refine kept.ends there before (fun row mem => ?_) (fun generated generates => ?_)
    (fun other mem pacing => ?_) (fun row mem some_ => due ?_)
  · obtain rfl := List.mem_singleton.mp mem
    exact ⟨rfl, rfl⟩
  · obtain ⟨rfl, known⟩ := settles.1 generated generates
    exact ⟨_, rfl, usd_eq_charge known⟩
  · rw [spent_end_record, NNRat.coe_add]
    exact settles.2 other mem pacing
  · obtain rfl := List.mem_singleton.mp mem
    rintro rfl
    exact lt_irrefl _ some_

theorem Kept.close (kept : Kept price s) (there : s.calls[i]? = some call) (before : call.phase ≠ .ended)
    (settles : s.Settles price call call.read) : Kept price (s.close i call) := by
  rw [Hosted.close]
  split_ifs with streamed
  · refine kept.recorded there before settles fun read waits => read ?_
    rw [Call.read, waits]
  · refine kept.ends there before (fun row mem => (by cases mem)) (fun usage generates => ?_)
      (fun other mem pacing => ?_) (fun row mem => (by cases mem))
    · have read := (settles.1 usage generates).1
      rw [Call.read] at read
      split at read
      · next reading => exact absurd (kept.plain call (List.mem_of_getElem? there) _ reading) streamed
      · cases read
    · rw [spent_end_nil]
      exact kept.waits other mem pacing

theorem opened_of_can {closing : Closing} {phase : Phase} (can : closing.Can phase) :
    phase ≠ .ended := by
  rintro rfl
  cases closing <;> exact can

theorem Kept.stepCall (kept : Kept price s) (there : s.calls[i]? = some call) {ev : CallEvent}
    (settled : s.Settled price i ev) (taken : s.stepCall i call ev = some s') : Kept price s' := by
  have mem := List.mem_of_getElem? there
  have settled := settled call there
  cases ev with
  | send =>
    obtain ⟨pacing, rfl⟩ := of_guard taken
    have logged : Kept price { s with sends := s.sends ++ [⟨i, call.purpose, s.config, s.spent⟩] } :=
      { kept with
        metered := ⟨fun sending new => by
            rcases mem_concat new with old | rfl
            · exact kept.metered.sent sending old
            · exact kept.waits call mem pacing,
          kept.metered.charged, kept.metered.open_, fun row mem some_ =>
            (kept.metered.due row mem some_).imp fun _ old => old.imp_left (List.mem_append_left _)⟩
        sending := fun j other here away opened => (kept.sending j other here away opened).imp
          fun _ old => old.imp_left (List.mem_append_left _) }
    exact logged.move there (by simp [pacing]) (by simp) (by simp) (by simp)
      fun _ => ⟨_, List.mem_concat_self, rfl⟩
  | generate usage =>
    obtain ⟨⟨away, -, sent⟩, rfl⟩ := of_guard taken
    exact kept.move there settled settled (fun pacing => absurd pacing away) (kept.plain call mem)
      fun _ => sent
  | limited wait =>
    obtain ⟨⟨sent, ungenerated⟩, same⟩ := Option.ite_none_right_eq_some.mp taken
    split_ifs at same with again
    · cases same
      exact kept.move there (by simp [sent]) (by simp) (fun _ => ⟨settled again, ungenerated⟩)
        (by simp) (by simp)
    · cases same
      refine kept.close there (by simp [sent]) ⟨fun usage generates => ?_, fun other mem pacing => ?_⟩
      · rw [ungenerated] at generates
        cases generates
      · rw [Call.read, sent]
        simpa using kept.waits other mem pacing
  | reply usage =>
    obtain ⟨⟨sent, -⟩, rfl⟩ := of_guard taken
    exact kept.recorded there (by simp [sent]) settled (by simp [sent])
  | begin_ =>
    obtain ⟨⟨sent, streamed⟩, rfl⟩ := of_guard taken
    exact kept.move there (by simp [sent]) (by simp) (by simp) (fun _ _ => streamed)
      fun _ => kept.sending i call there (by simp [sent]) (by simp [sent])
  | chunk usage =>
    rw [Hosted.stepCall] at taken
    split at taken
    case h_2 => cases taken
    case h_1 before reading =>
      cases taken
      exact kept.move there (by simp [reading]) (by simp) (by simp)
        (fun _ _ => kept.plain call mem before reading)
        fun _ => kept.sending i call there (by simp [reading]) (by simp [reading])
  | close closing =>
    obtain ⟨can, rfl⟩ := of_guard taken
    exact kept.close there (opened_of_can can) settled

theorem prepare_ok {name : ModelName} {purpose : Text} (prepared : s.prepare name purpose = .ok ()) :
    Admits s.config s.spent purpose := by
  rw [← checkBudget_eq_none]
  cases refused : checkBudget s.config s.spent purpose with
  | none => rfl
  | some refusal =>
    rw [prepare, refused] at prepared
    split_ifs at prepared

theorem Kept.called (kept : Kept price s) {name : ModelName} {purpose : Text} {streamed : Bool}
    (admits : Admits s.config s.spent purpose) :
    Kept price { s with calls := s.calls ++ [⟨name, purpose, streamed, 0, .pacing, none⟩] } where
  metered := by
    refine ⟨kept.metered.sent, fun j other usage here ended => ?_, fun j other here opened => ?_,
      kept.metered.due⟩
    · rw [List.getElem?_append] at here
      split_ifs at here with old
      · exact kept.metered.charged j other usage here ended
      · obtain rfl := List.mem_singleton.mp (List.mem_of_getElem? here)
        cases ended
    · rw [List.getElem?_append] at here
      split_ifs at here with old
      · exact kept.metered.open_ j other here opened
      · -- no row is for a call that was not made
        rw [List.filter_eq_nil_iff]
        intro row mem same
        exact old (of_decide_eq_true same ▸ kept.known row mem)
  waits other mem pacing := by
    rcases mem_concat mem with old | rfl
    · exact kept.waits other old pacing
    · exact admits
  days := kept.days
  known row mem := by
    rw [List.length_append]
    exact Nat.lt_add_right _ (kept.known row mem)
  blank other mem pacing := by
    rcases mem_concat mem with old | rfl
    · exact kept.blank other old pacing
    · rfl
  plain other mem usage reading := by
    rcases mem_concat mem with old | rfl
    · exact kept.plain other old usage reading
    · cases reading
  sending j other here away opened := by
    rw [List.getElem?_append] at here
    split_ifs at here with old
    · exact kept.sending j other here away opened
    · obtain rfl := List.mem_singleton.mp (List.mem_of_getElem? here)
      exact absurd rfl away

theorem Kept.tomorrow (kept : Kept price s) : Kept price { s with day := s.day + 1 } where
  metered := ⟨kept.metered.sent, kept.metered.charged, kept.metered.open_, kept.metered.due⟩
  waits other mem pacing := by
    have none_ : (s.ledger.filter fun row => row.day = s.day + 1) = [] := by
      rw [List.filter_eq_nil_iff]
      intro row mem same
      have late := kept.days row mem
      have next := of_decide_eq_true same
      omega
    refine (kept.waits other mem pacing).mono ?_
    rw [spent, none_]
    exact s.spent.coe_nonneg
  days row mem := (kept.days row mem).trans (Nat.le_succ _)
  known := kept.known
  blank := kept.blank
  plain := kept.plain
  sending := kept.sending

/-- A step that meets the condition keeps the limit and the ledger right. -/
theorem Kept.step (kept : Kept price s) {ev : HostedEvent} (careful : s.Careful price ev)
    (taken : s.step ev = some s') : Kept price s' := by
  cases ev with
  | midnight =>
    cases taken
    exact kept.tomorrow
  | configure config keys =>
    cases taken
    exact { kept with
      metered := ⟨kept.metered.sent, kept.metered.charged, kept.metered.open_, kept.metered.due⟩
      waits := careful }
  | catalog rows =>
    cases taken
    exact { kept with
      metered := ⟨kept.metered.sent, kept.metered.charged, kept.metered.open_, kept.metered.due⟩ }
  | call name purpose streamed =>
    rw [Hosted.step] at taken
    split at taken
    case h_1 prepared =>
      cases taken
      exact kept.called (prepare_ok prepared)
    case h_2 =>
      cases taken
      exact kept
  | of_ i ev =>
    obtain ⟨call, there, taken⟩ := Option.bind_eq_some_iff.mp taken
    exact kept.stepCall there careful taken

/-- The limit holds and the ledger is right in every run in which each call ends only when the usage block
of its answer was read and leaves room for the calls that wait, the settings are changed only when they leave
room for them, a call waits again only when it might still be sent, and no answer is generated for a call
that ended. -/
theorem metered_of_careful {config : Config} {keys : List Text}
    (reached : Reaches step (Careful price) (fresh config keys) s) : s.Metered price :=
  (reached.invariant (Kept price) (kept_fresh config keys)
    fun _ _ _ kept careful taken => kept.step careful taken).metered

def gptOss : ModelName := ⟨"openai/gpt-oss-120b".toList, "groq".toList⟩

/-- A million tokens of the prompt cost one dollar, a million of the answer two. -/
def onePrice : ModelName → Price := fun _ => ⟨1, 2⟩

/-- An answer of half a million tokens to a million of them. -/
def twoDollars : Usage := ⟨some 1000000, some 500000, none⟩

/-- A stream is read to its end, and a call for ideas is answered at its second request. -/
theorem read_metered : (⟨1, ⟨[gptOss], 5, 1⟩, ["groq".toList], Dict.empty.set gptOss (onePrice gptOss).row,
    [⟨0, 0, gptOss, "chat".toList, some 1000000, some 500000, 2⟩,
      ⟨1, 0, gptOss, "ideas:7".toList, some 1000000, some 500000, 2⟩],
    [⟨gptOss, "chat".toList, true, 0, .ended, some twoDollars⟩,
      ⟨gptOss, "ideas:7".toList, false, 1, .ended, some twoDollars⟩],
    [⟨0, "chat".toList, ⟨[gptOss], 5, 1⟩, 0⟩, ⟨1, "ideas:7".toList, ⟨[gptOss], 5, 1⟩, 2⟩,
      ⟨1, "ideas:7".toList, ⟨[gptOss], 5, 1⟩, 2⟩]⟩ : Hosted).Metered onePrice :=
  metered_of_careful (show Reaches step _ (fresh ⟨[gptOss], 5, 1⟩ ["groq".toList]) _ from .checked [
    .catalog (Dict.empty.set gptOss (onePrice gptOss).row),
    .call gptOss "chat".toList true, .of_ 0 .send, .of_ 0 (.generate twoDollars), .of_ 0 .begin_,
    .of_ 0 (.chunk none), .of_ 0 (.chunk (some twoDollars)), .of_ 0 (.close .finished),
    .call gptOss "ideas:7".toList false, .of_ 1 .send, .of_ 1 (.limited none), .of_ 1 .send,
    .of_ 1 (.generate twoDollars), .of_ 1 (.reply (some twoDollars)), .midnight]
    (by with_unfolding_all decide))

/-- Two calls come when nothing is spent. One waits until the other is charged, and is sent when all is
spent that is not held for ideas. -/
theorem paced_exceeds : ¬∀ s, Reaches step Always
    (fresh ⟨[gptOss], 2, 1⟩ ["groq".toList]) s → s.Metered onePrice := by
  intro all
  have reached : Reaches step Always (fresh ⟨[gptOss], 2, 1⟩ ["groq".toList])
      (⟨0, ⟨[gptOss], 2, 1⟩, ["groq".toList], Dict.empty.set gptOss (onePrice gptOss).row,
        [⟨0, 0, gptOss, "chat".toList, some 1000000, some 500000, 2⟩],
        [⟨gptOss, "chat".toList, false, 0, .ended, some twoDollars⟩,
          ⟨gptOss, "chat".toList, false, 0, .sent, none⟩],
        [⟨0, "chat".toList, ⟨[gptOss], 2, 1⟩, 0⟩, ⟨1, "chat".toList, ⟨[gptOss], 2, 1⟩, 2⟩]⟩ : Hosted) :=
    Reaches.run .refl [.catalog (Dict.empty.set gptOss (onePrice gptOss).row),
      .call gptOss "chat".toList false, .call gptOss "chat".toList false, .of_ 0 .send,
      .of_ 0 (.generate twoDollars), .of_ 0 (.reply (some twoDollars)), .of_ 1 .send]
      (fun _ _ _ => trivial) (by with_unfolding_all decide)
  have sent := (all _ reached).sent ⟨1, "chat".toList, ⟨[gptOss], 2, 1⟩, 2⟩ (by simp)
  exact absurd sent (by decide)

end Hosted
end FreeSwarm.External
