import FreeSwarm.Foundation.Blanks
import FreeSwarm.Foundation.FairRun
import Mathlib.Algebra.Order.Ring.Rat
import Mathlib.Data.List.SplitBy

/-!
# The settings of an objective

What an objective is scored on is one document, which each request reads and writes as a whole. A request
that is answered at once reads what it changes. One that asks the task server first writes back what it
read before, with whatever was changed since.
-/

namespace FreeSwarm.Objectives

open FreeSwarm.Foundation

/-! ## Action rules -/

/-- `int` of a text: digits, with a sign and with blanks around them. -/
def intOf (text : List Char) : Option Int :=
  let natOf (digits : List Char) : Option Int :=
    if digits ≠ [] ∧ digits.all Char.isDigit = true then
      some (digits.foldl (fun n digit => 10 * n + (digit.toNat - '0'.toNat : Nat)) 0)
    else none
  match strip text with
  | '-' :: digits => (natOf digits).map fun n => -n
  | '+' :: digits => natOf digits
  | digits => natOf digits

variable (rule : List Char)

def ruleParts : List (List Char) := (rule.splitOn '+').map strip

/-- A part of an action rule is written as a daily trade limit. -/
def IsLimit (part : List Char) : Prop :=
  "max_".toList <+: part ∧
    ("_trades".toList <:+ part ∨ "_trade".toList <:+ part ∨ "_trades_per_day".toList <:+ part)

instance decidableIsLimit (part : List Char) : Decidable (IsLimit part) :=
  inferInstanceAs (Decidable (_ ∧ _))

/-- `trade_limit`: the daily trade limit in an action rule. -/
def tradeLimit : Option Int :=
  ((ruleParts rule).find? fun part => IsLimit part).bind fun part => intOf ((part.splitOn '_').getD 1 [])

/-- `with_trade_limit`: an action rule with its daily trade limit replaced. -/
def withTradeLimit (cap : Nat) : List Char :=
  let rule := if rule = [] then "intraday".toList else rule
  let parts := (ruleParts rule).filter fun part => part ≠ [] ∧ tradeLimit part = none
  let base := ['+'].intercalate parts
  (if base = [] then "intraday".toList else base) ++
    if cap = 0 then [] else "+max_".toList ++ Nat.toDigits 10 cap ++ "_trades".toList

/-! ## The document -/

inductive Rank where
  | robust
  | holdout
  deriving DecidableEq

/-- The trades that are allowed. -/
inductive Direction where
  | both
  | long
  | short
  deriving DecidableEq

structure TaskInfo where
  action : Option (List Char)
  actionRule : Option (List Char)
  actionRules : Option (List Char)
  /-- `guidance`: the advice of the task server to the agents. -/
  guidance : Option (List Char)
  valuation : Option (List Char)
  rest : List Char
  deriving DecidableEq

/-- `metric`: what an objective is scored on. -/
structure Metric where
  isTask : Bool
  /-- `price_column`, with which the harness prices positions. -/
  priceColumn : Option (List Char)
  rank : Option Rank
  direction : Option Direction
  /-- `intraday`: positions are closed at the last bar of each day. -/
  intraday : Option Bool
  /-- `min_side_share`: longs and shorts are each at least this share of the trades. -/
  minSideShare : Option ℚ
  /-- `action_rule`, with the trade limit. -/
  actionRule : Option (List Char)
  minTrades : Option Nat
  minTradesPerDay : Option ℚ
  taskInfo : TaskInfo
  rest : List Char
  deriving DecidableEq

/-- What the task server says of a task. -/
structure Description where
  action : Option (List Char)
  actionRule : Option (List Char)
  actionRules : Option (List Char)
  guidance : Option (List Char)
  valuation : Option (List Char)
  deriving DecidableEq

namespace Metric

/-- The first text that is given and is not empty. -/
def orElse (text other : Option (List Char)) : Option (List Char) :=
  if text.getD [] = [] then other else text

variable (m : Metric)

def Prices : Prop := m.priceColumn.getD [] ≠ []

instance decidablePrices (m : Metric) : Decidable m.Prices := inferInstanceAs (Decidable (_ ≠ _))

/-- The action rule that a trade limit makes, which the task server is asked about. -/
def limitRule (cap : Nat) : List Char :=
  withTradeLimit ((orElse m.actionRule m.taskInfo.actionRule).getD []) cap

/-- A trade limit is written, with what the task server says about the rule. -/
def limit (rule : List Char) (d : Description) : Metric :=
  { m with
    actionRule := orElse d.actionRule (some rule)
    taskInfo := { m.taskInfo with
      action := d.action
      actionRule := d.actionRule
      actionRules := d.actionRules
      guidance := d.guidance
      valuation := d.valuation } }

/-- The advice of the task server is written. -/
def guide (guidance : List Char) : Metric :=
  { m with taskInfo := { m.taskInfo with guidance := some guidance } }

/-- The least numbers of trades are written, as far as they are given. -/
def floor (minTrades : Option Nat) (minTradesPerDay : Option ℚ) : Metric :=
  { m with
    minTrades := if minTrades.isSome then minTrades else m.minTrades
    minTradesPerDay := if minTradesPerDay.isSome then minTradesPerDay else m.minTradesPerDay }

end Metric

/-! ## Requests -/

/-- A trade limit of which the task server is asked. -/
structure LimitCall where
  metric : Metric
  maxTradesPerDay : Nat
  deriving DecidableEq

structure Briefing where
  metric : Metric
  asks : Bool
  deriving DecidableEq

/-- The settings of an objective, and the requests that are under way. -/
structure Settings where
  metric : Metric
  limits : List LimitCall
  briefings : List Briefing
  guidanceChecked : ℚ
  asked : Metric
  deriving DecidableEq

/-- A step. Requests that wait for the task server go on when it answers. -/
inductive Setting where
  | setRanking (rank : Rank)
  | setDirection (direction : Direction)
  | setIntraday (intraday : Bool)
  | setSideShare (minSideShare : ℚ)
  | setMinTrades (minTrades : Option Nat) (minTradesPerDay : Option ℚ)
  /-- `set_trade_limit`: the task server is asked. -/
  | setTradeLimit (maxTradesPerDay : Nat)
  | described (call : LimitCall) (answer : Option Description)
  /-- `context`: an agent is briefed. -/
  | context
  | viewed (briefing : Briefing) (changed : Bool) (now : ℚ)
  /-- `refresh_guidance`: the task server gives its advice, or fails. -/
  | refreshed (briefing : Briefing) (answer : Option Description)
  deriving DecidableEq

namespace Settings

def guidanceTtlS : ℚ := 600

variable (s : Settings)

/-- A request is accepted, which is answered at once. -/
def accept (change : Metric → Metric) : Settings :=
  { s with metric := change s.metric, asked := change s.asked }

def writeBack (read : Metric) (change : Metric → Metric) : Settings :=
  { s with metric := change read, asked := change s.asked }

def advice (read : Metric) (answer : Option Description) : Option (List Char) :=
  match answer with
  | none => none
  | some d => if d.guidance = read.taskInfo.guidance then none else d.guidance

def step : Setting → Option Settings
  | .setRanking rank => some (s.accept fun m => { m with rank := some rank })
  | .setDirection direction =>
    if s.metric.Prices then some (s.accept fun m => { m with direction := some direction }) else none
  | .setIntraday intraday =>
    if s.metric.Prices then some (s.accept fun m => { m with intraday := some intraday }) else none
  | .setSideShare minSideShare =>
    if s.metric.Prices ∧ 0 ≤ minSideShare ∧ minSideShare ≤ 1 / 2 then
      some (s.accept fun m => { m with minSideShare := some minSideShare })
    else none
  | .setMinTrades minTrades minTradesPerDay =>
    if s.metric.isTask ∧ (∀ n ∈ minTrades, n ≤ 100000) ∧ (∀ n ∈ minTradesPerDay, 0 ≤ n ∧ n ≤ 100) then
      some (s.accept fun m => m.floor minTrades minTradesPerDay)
    else none
  | .setTradeLimit maxTradesPerDay =>
    if s.metric.isTask ∧ maxTradesPerDay ≤ 200 then
      some { s with limits := ⟨s.metric, maxTradesPerDay⟩ :: s.limits }
    else none
  | .described call answer =>
    if call ∈ s.limits then
      let s := { s with limits := s.limits.erase call }
      match answer with
      | none => some s
      | some d =>
        some (s.writeBack call.metric fun m => m.limit (call.metric.limitRule call.maxTradesPerDay) d)
    else none
  | .context =>
    if s.metric.isTask then some { s with briefings := ⟨s.metric, false⟩ :: s.briefings } else some s
  | .viewed briefing changed now =>
    if briefing ∈ s.briefings ∧ briefing.asks = false then
      let s := { s with briefings := s.briefings.erase briefing }
      if now - s.guidanceChecked < guidanceTtlS then some s
      else
        some { s with
          briefings := ⟨if changed then s.metric else briefing.metric, true⟩ :: s.briefings
          guidanceChecked := now }
    else none
  | .refreshed briefing answer =>
    if briefing ∈ s.briefings ∧ briefing.asks = true then
      let s := { s with briefings := s.briefings.erase briefing }
      match advice briefing.metric answer with
      | none => some s
      | some guidance => some (s.writeBack briefing.metric fun m => m.guide guidance)
    else none

/-! ## What is written back -/

/-- The document is what the requests that were accepted asked for. -/
def Faithful : Prop := s.metric = s.asked

/-- A request that writes back what it read has read what is there, as far as it is not what it changes. -/
def Current : Setting → Prop
  | .described call (some d) =>
    let rule := call.metric.limitRule call.maxTradesPerDay
    call.metric.limit rule d = s.metric.limit rule d
  | .refreshed briefing answer =>
    ∀ guidance, advice briefing.metric answer = some guidance →
      briefing.metric.guide guidance = s.metric.guide guidance
  | _ => True

variable {s s' : Settings}

theorem accept_faithful (faithful : s.Faithful) (change : Metric → Metric) :
    (s.accept change).Faithful :=
  congrArg change faithful

theorem writeBack_faithful_iff (faithful : s.Faithful) {read : Metric} {change : Metric → Metric} :
    (s.writeBack read change).Faithful ↔ change read = change s.metric := by
  rw [Faithful] at faithful
  rw [Faithful, writeBack, faithful]

/-- A step leaves the document what was asked for exactly if it read what is there. -/
theorem step_faithful_iff {ev : Setting} (faithful : s.Faithful) (taken : s.step ev = some s') :
    s'.Faithful ↔ s.Current ev := by
  cases ev with
  | setRanking rank =>
    cases taken
    exact iff_of_true (accept_faithful faithful _) trivial
  | setDirection direction | setIntraday intraday | setSideShare minSideShare
  | setMinTrades minTrades minTradesPerDay =>
    obtain ⟨-, rfl⟩ := of_guard taken
    exact iff_of_true (accept_faithful faithful _) trivial
  | setTradeLimit maxTradesPerDay =>
    obtain ⟨-, rfl⟩ := of_guard taken
    exact iff_of_true faithful trivial
  | described call answer =>
    obtain ⟨-, same⟩ := Option.ite_none_right_eq_some.mp taken
    cases answer with
    | none =>
      cases same
      exact iff_of_true faithful trivial
    | some d =>
      cases same
      exact writeBack_faithful_iff (s := { s with limits := s.limits.erase call }) faithful
  | context =>
    rw [step] at taken
    split_ifs at taken
    · cases taken
      exact iff_of_true faithful trivial
    · cases taken
      exact iff_of_true faithful trivial
  | viewed briefing changed now =>
    obtain ⟨-, same⟩ := Option.ite_none_right_eq_some.mp taken
    dsimp only at same
    by_cases early : now - s.guidanceChecked < guidanceTtlS
    · rw [if_pos early] at same
      cases same
      exact iff_of_true faithful trivial
    · rw [if_neg early] at same
      cases same
      exact iff_of_true faithful trivial
  | refreshed briefing answer =>
    obtain ⟨-, same⟩ := Option.ite_none_right_eq_some.mp taken
    cases given : advice briefing.metric answer with
    | none =>
      rw [given] at same
      cases same
      refine iff_of_true faithful fun guidance is_ => ?_
      rw [given] at is_
      nomatch is_
    | some guidance =>
      rw [given] at same
      cases same
      rw [writeBack_faithful_iff (s := { s with briefings := s.briefings.erase briefing }) faithful]
      constructor
      · intro current guidance' is_
        cases given.symm.trans is_
        exact current
      · exact fun current => current guidance given

/-- In a run, each setting has the value that was asked for last exactly if what is written back was
always current. -/
theorem faithful_iff (run : Run step Always) (begins : (run.states 0).metric = (run.states 0).asked) :
    (∀ n, (run.states n).Faithful) ↔
      ∀ n ev, run.events n = some ev → (run.states n).Current ev := by
  refine run.holds_iff Faithful Faithful Current begins (fun _ faithful => faithful) ?_ ?_
  · exact fun s ev s' faithful _ current taken => (step_faithful_iff faithful taken).mpr current
  · exact fun s ev s' faithful _ stale taken faithful' =>
      stale ((step_faithful_iff faithful taken).mp faithful')

/-! ## A trade limit that is being set -/

def taskMetric : Metric where
  isTask := true
  priceColumn := none
  rank := some .robust
  direction := none
  intraday := none
  minSideShare := none
  actionRule := some "intraday".toList
  minTrades := none
  minTradesPerDay := none
  taskInfo := ⟨none, some "intraday".toList, none, none, none, []⟩
  rest := []

/-- What the task server says of the rule with three trades a day. -/
def threeTrades : Description := ⟨none, some "intraday+max_3_trades".toList, none, none, none⟩

def created : Settings := ⟨taskMetric, [], [], 0, taskMetric⟩

/-- A trade limit is set, and a least number of trades before the task server answers, or after that. -/
def limitThenFloor (late : Bool) : List Setting :=
  let answer : Setting := .described ⟨taskMetric, 3⟩ (some threeTrades)
  let floor : Setting := .setMinTrades (some 50) none
  .setTradeLimit 3 :: if late then [answer, floor] else [floor, answer]

/-- What was asked for. -/
def limitedMetric : Metric :=
  { taskMetric.limit [] threeTrades with minTrades := some 50 }

theorem limitThenFloor_late :
    (limitThenFloor true).foldlM step created = some ⟨limitedMetric, [], [], 0, limitedMetric⟩ := by
  with_unfolding_all decide

theorem limitThenFloor_between : (limitThenFloor false).foldlM step created =
    some ⟨{ limitedMetric with minTrades := none }, [], [], 0, limitedMetric⟩ := by
  with_unfolding_all decide

/-- Each request is answered before the next one is made. -/
theorem limited_faithful : Faithful ⟨limitedMetric, [], [], 0, limitedMetric⟩ := by
  let run := Run.ofEvents (limitThenFloor true) created _ limitThenFloor_late
  refine (faithful_iff run rfl).mpr (fun n ev event => ?_) 3
  match n with
  | 0 | 2 =>
    cases event
    trivial
  | 1 =>
    cases event
    rfl
  | n + 3 => nomatch event

/-- The least number of trades is lost that was set while the task server was asked. -/
theorem limited_lost : ∃ run : Run step Always, run.states 0 = created ∧
    run.events 1 = some (.setMinTrades (some 50) none) ∧ (run.states 2).metric.minTrades = some 50 ∧
      (run.states 3).metric.minTrades = none ∧ ¬(run.states 3).Faithful := by
  refine ⟨Run.ofEvents (limitThenFloor false) created _ limitThenFloor_between, rfl, rfl, ?_, ?_, ?_⟩
  · with_unfolding_all decide
  · rw [Run.ofEvents_last limitThenFloor_between 3 (Nat.le_refl _)]
  · rw [Run.ofEvents_last limitThenFloor_between 3 (Nat.le_refl _)]
    exact fun faithful => nomatch congrArg Metric.minTrades faithful

end Settings

end FreeSwarm.Objectives
