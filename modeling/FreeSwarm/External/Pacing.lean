import FreeSwarm.External.Spending
import Mathlib.Algebra.Order.BigOperators.Group.List
import Mathlib.Tactic.Linarith

/-!
# The pace of hosted models

Each answer of a provider tells what is left of the limits on the tokens and the requests of a model, and
when they refill. A call looks again until both have room for it, and takes the room before it is sent.
-/

namespace FreeSwarm.External

open FreeSwarm.Foundation

/-! ## Windows -/

/-- What `_rates` has of one kind: tokens or requests. -/
structure Window where
  limit : Option Int
  left : Option Int
  resetAt : Rat
  deriving DecidableEq

/-- The headers of one kind, as numbers. -/
structure Report where
  limit : Option Int
  remaining : Option Int
  reset : Option Rat

namespace Window
variable (w : Window) (now : Rat)

/-- `limit or default`. -/
def limitOr (default : Int) : Int := (w.limit.filter (· ≠ 0)).getD default

def refill : Window :=
  match w.left with
  | some left => if w.resetAt ≤ now then { w with left := some (w.limitOr left) } else w
  | none => w

def waits (need : Int) : List Rat :=
  match w.left with
  | some left => if left < need then [w.resetAt - now] else []
  | none => []

def reserve (cost : Int) : Window := { w with left := w.left.map (· - cost) }

/-- `_learn`. -/
def learn (report : Report) : Window where
  limit := report.limit.or w.limit
  left := report.remaining.or w.left
  resetAt := if report.remaining.isSome then now + (report.reset.filter (· ≠ 0)).getD 60 else w.resetAt

end Window

/-- `_estimate`, of the lengths of the messages and tools as JSON. -/
def estimate (messages tools : Nat) (maxTokens maxCompletionTokens : Option Nat) : Nat :=
  (messages + tools) * 2 / 7 +
    ((maxTokens.filter (· ≠ 0)).or (maxCompletionTokens.filter (· ≠ 0))).getD 1024

/-- What `_rates` has of a model. -/
structure Rates where
  tokens : Window
  requests : Window
  blockedUntil : Rat
  deriving DecidableEq

namespace Rates
variable (rates : Rates) (now : Rat) (est : Int)

def waits : List Rat :=
  (if now < rates.blockedUntil then [rates.blockedUntil - now] else []) ++
    (rates.tokens.refill now).waits now (min est (rates.tokens.limitOr est)) ++
    (rates.requests.refill now).waits now 1

def wait : Rat := (rates.waits now est).max?.getD 0

/-- A look of `_pace`. -/
def look : Rates :=
  let tokens := rates.tokens.refill now
  let requests := rates.requests.refill now
  if rates.wait now est ≤ 0 then { rates with tokens := tokens.reserve est, requests := requests.reserve 1 }
  else { rates with tokens, requests }

end Rates

inductive Paced where
  | admitted
  | refused
  | waiting
  deriving DecidableEq

/-- `_pace`, given what `_rates` has at each look and how late the call is woken after it. -/
def pace (est : Int) : List (Rates × Rat) → Rat → Paced
  | [], _ => .waiting
  | (rates, late) :: looks, now =>
    let wait := rates.wait now est
    if wait ≤ 0 then .admitted
    else if rateWaitMaxS < wait then .refused
    else pace est looks (now + (wait + 1 / 20) + late)

/-! ## Calls that are out -/

/-- A call that was admitted and is not answered, with what it takes of a window. -/
structure Held where
  id : Nat
  cost : Int
  positive : 0 < cost
  deriving DecidableEq

/-- What a window of the provider has room for, and the calls admitted in it. -/
structure Ledger where
  room : Option Int
  /-- It refilled since the provider told of it. -/
  refilled : Bool
  held : List Held
  deriving DecidableEq

namespace Ledger
variable (ledger : Ledger)

def sum : Int := (ledger.held.map Held.cost).sum

/-- The first look after the window refilled is in a new one. -/
def refill (w : Window) (now : Rat) : Ledger :=
  match w.left with
  | some left => if w.resetAt ≤ now ∧ ¬ledger.refilled then ⟨some (w.limitOr left), true, []⟩ else ledger
  | none => ledger

def hold (call : Held) : Ledger := { ledger with held := call :: ledger.held }

def answer (id : Nat) : Ledger := { ledger with held := ledger.held.filter (·.id ≠ id) }

def learn (report : Report) : Ledger :=
  match report.remaining with
  | some remaining => { ledger with room := some remaining, refilled := false }
  | none => ledger

/-- The calls that are out have room, or are one that is larger than the limit. -/
def Within (w : Window) : Prop :=
  ∀ room ∈ ledger.room, ledger.sum ≤ room ∨
    ∃ call limit, ledger.held = [call] ∧ w.limit = some limit ∧ limit < call.cost

/-- No call is out of a window that is refilled a second time. -/
def Fresh (w : Window) (now : Rat) : Prop := ledger.refilled → w.resetAt ≤ now → ledger.held = []

end Ledger

/-- A report that tells of a window tells its limit, and no more is left than the limit. -/
def Report.Sound : Report → Prop
  | ⟨none, none, _⟩ => True
  | ⟨some limit, some remaining, _⟩ => 0 < limit ∧ 0 ≤ remaining ∧ remaining ≤ limit
  | _ => False

instance : DecidablePred Report.Sound
  | ⟨none, none, _⟩ => .isTrue trivial
  | ⟨some _, some _, _⟩ => inferInstanceAs (Decidable (_ ∧ _ ∧ _))
  | ⟨some _, none, _⟩ | ⟨none, some _, _⟩ => .isFalse id

structure Pacing where
  rates : Rates
  tokens : Ledger
  requests : Ledger
  /-- How many calls were admitted: the number of the next. -/
  admitted : Nat
  deriving DecidableEq

inductive PacingEvent where
  | look (now : Rat) (est : Int) (positive : 0 < est)
  /-- The call gets an answer, or fails without one. -/
  | answer (id : Nat) (now : Rat) (tokens requests : Report)
  /-- `_block`. -/
  | block (now seconds : Rat)

namespace Pacing
variable (s : Pacing)

def step : PacingEvent → Option Pacing
  | .look now est positive =>
    let tokens := s.tokens.refill s.rates.tokens now
    let requests := s.requests.refill s.rates.requests now
    let rates := s.rates.look now est
    some (if s.rates.wait now est ≤ 0 then
      ⟨rates, tokens.hold ⟨s.admitted, est, positive⟩, requests.hold ⟨s.admitted, 1, Int.one_pos⟩, s.admitted + 1⟩
    else { s with rates, tokens, requests })
  | .answer id now tokens requests =>
    some { s with
      rates := { s.rates with
        tokens := s.rates.tokens.learn now tokens, requests := s.rates.requests.learn now requests }
      tokens := (s.tokens.answer id).learn tokens, requests := (s.requests.answer id).learn requests }
  | .block now seconds =>
    some { s with rates := { s.rates with blockedUntil := max s.rates.blockedUntil (now + seconds) } }

def fresh : Pacing := ⟨⟨⟨none, none, 0⟩, ⟨none, none, 0⟩, 0⟩, ⟨none, false, []⟩, ⟨none, false, []⟩, 0⟩

/-- A report comes when no other call is out, and no call is out of a window that is refilled again. -/
def Alone : PacingEvent → Prop
  | .look now _ _ => s.tokens.Fresh s.rates.tokens now ∧ s.requests.Fresh s.rates.requests now
  | .answer id _ tokens requests =>
    (tokens.Sound ∧ (tokens.remaining ≠ none → (s.tokens.answer id).held = [])) ∧
      requests.Sound ∧ (requests.remaining ≠ none → (s.requests.answer id).held = [])
  | .block _ _ => True

instance : DecidablePred s.Alone
  | .look _ _ _ => inferInstanceAs (Decidable ((_ = true → _ → _) ∧ (_ = true → _ → _)))
  | .answer _ _ _ _ => inferInstanceAs (Decidable ((_ ∧ (¬_ → _)) ∧ _ ∧ (¬_ → _)))
  | .block _ _ => .isTrue trivial

end Pacing

/-! ## What is reserved -/

/-- What is left of a window has been taken from the room in it by the calls that are out. -/
inductive Ledger.Kept : Window → Ledger → Prop
  | unknown {limit : Option Int} {resetAt : Rat} {refilled : Bool} {held : List Held} :
      Kept ⟨limit, none, resetAt⟩ ⟨none, refilled, held⟩
  | known {limit left room : Int} {resetAt : Rat} {refilled : Bool} {held : List Held}
      (positive : 0 < limit) (nonneg : 0 ≤ room) (le : room ≤ limit) (full : refilled → room = limit)
      (taken : left + (held.map Held.cost).sum ≤ room)
      (alone : 0 ≤ left ∨ held = [] ∨ ∃ call, held = [call] ∧ limit < call.cost) :
      Kept ⟨some limit, some left, resetAt⟩ ⟨some room, refilled, held⟩

@[simp] theorem limitOr_some {limit left : Int} {resetAt : Rat} (positive : 0 < limit) (default : Int) :
    (Window.mk (some limit) (some left) resetAt).limitOr default = limit := by
  simp [Window.limitOr, Option.filter, positive.ne']

@[simp] theorem limitOr_refill (w : Window) (now : Rat) (default : Int) :
    (w.refill now).limitOr default = w.limitOr default := by
  rw [Window.refill]
  split
  · split <;> rfl
  · rfl

theorem sum_filter_le (p : Held → Bool) (held : List Held) :
    ((held.filter p).map Held.cost).sum ≤ (held.map Held.cost).sum := by
  refine ((List.filter_sublist).map Held.cost).sum_le_sum fun cost mem => ?_
  obtain ⟨call, -, rfl⟩ := List.mem_map.mp mem
  exact call.positive.le

theorem sum_nonneg (held : List Held) : 0 ≤ (held.map Held.cost).sum := by
  simpa using sum_filter_le (fun _ => false) held

namespace Ledger.Kept
variable {w : Window} {ledger : Ledger} {now : Rat}

theorem within (kept : Kept w ledger) : ledger.Within w := by
  cases kept with
  | unknown => rintro room ⟨⟩
  | known positive nonneg le full taken alone =>
    rintro _ ⟨⟩
    simp only [Ledger.sum]
    rcases alone with left | rfl | ⟨call, rfl, larger⟩
    · exact .inl (by omega)
    · exact .inl nonneg
    · exact .inr ⟨call, _, rfl, rfl, larger⟩

theorem refill (kept : Kept w ledger) (fresh : ledger.Fresh w now) :
    Kept (w.refill now) (ledger.refill w now) := by
  cases kept with
  | unknown => exact .unknown
  | @known limit left room resetAt refilled held positive nonneg le full taken alone =>
    by_cases expired : resetAt ≤ now
    · cases refilled with
      | false =>
        simpa [Window.refill, Ledger.refill, expired, positive] using
          Kept.known positive positive.le le_rfl (fun _ => rfl) (by simp) (.inr (.inl rfl))
      | true =>
        have none_out : held = [] := fresh rfl expired
        simpa [Window.refill, Ledger.refill, expired, positive, none_out, full] using
          Kept.known positive positive.le le_rfl (fun _ => rfl) (by simp) (.inr (.inl rfl))
    · simpa [Window.refill, Ledger.refill, expired] using Kept.known positive nonneg le full taken alone

/-- A window that a call does not wait for has room for it, or its whole limit. -/
theorem need_le {need : Int} (kept : Kept w ledger) (small : ∀ limit ∈ w.limit, 0 < limit → need ≤ limit)
    (waits : ∀ wait ∈ (w.refill now).waits now need, wait ≤ 0) : ∀ left ∈ (w.refill now).left, need ≤ left := by
  cases kept with
  | unknown => rintro left ⟨⟩
  | @known limit left room resetAt refilled held positive =>
    have small := small limit rfl positive
    by_cases expired : resetAt ≤ now
    · simpa [Window.refill, expired, positive] using small
    · simpa [Window.refill, expired, Window.waits] using waits

theorem hold (kept : Kept w ledger) (call : Held)
    (need : ∀ left ∈ w.left, min call.cost (w.limitOr call.cost) ≤ left) :
    Kept (w.reserve call.cost) (ledger.hold call) := by
  cases kept with
  | unknown => exact .unknown
  | @known limit left room resetAt refilled held positive nonneg le full taken alone =>
    have room_for := need left rfl
    rw [limitOr_some positive] at room_for
    have others := sum_nonneg held
    refine .known positive nonneg le full (by simp only [List.map_cons, List.sum_cons]; omega) ?_
    by_cases larger : limit < call.cost
    · cases held with
      | nil => exact .inr (.inr ⟨call, rfl, larger⟩)
      | cons other held =>
        have := sum_nonneg held
        have := other.positive
        simp only [List.map_cons, List.sum_cons] at taken
        omega
    · exact .inl (by change 0 ≤ left - call.cost; omega)

theorem answer (kept : Kept w ledger) (id : Nat) : Kept w (ledger.answer id) := by
  cases kept with
  | unknown => exact .unknown
  | @known limit left room resetAt refilled held positive nonneg le full taken alone =>
    have fewer := sum_filter_le (·.id ≠ id) held
    refine .known positive nonneg le full ((Int.add_le_add_left fewer left).trans taken) ?_
    rcases alone with left | rfl | ⟨call, rfl, larger⟩
    · exact .inl left
    · exact .inr (.inl rfl)
    · by_cases same : call.id = id
      · exact .inr (.inl (by simp [same]))
      · exact .inr (.inr ⟨call, by simp [same], larger⟩)

theorem learn {report : Report} (kept : Kept w ledger) (sound : report.Sound)
    (none_out : report.remaining ≠ none → ledger.held = []) : Kept (w.learn now report) (ledger.learn report) := by
  obtain ⟨_ | limit, _ | remaining, _⟩ := report
  · simpa [Window.learn, Ledger.learn] using kept
  · exact sound.elim
  · exact sound.elim
  · obtain ⟨positive, nonneg, le⟩ := sound
    have none_out : ledger.held = [] := none_out (by simp)
    simpa [Window.learn, Ledger.learn, none_out] using
      Kept.known positive nonneg le (by simp) (by simp) (.inr (.inl rfl))

end Ledger.Kept

/-! ## Looks -/

variable {now : Rat} {rates : Rates}

theorem wait_le_zero {est : Int} :
    rates.wait now est ≤ 0 ↔ ∀ wait ∈ rates.waits now est, wait ≤ 0 := by
  rw [Rates.wait]
  cases longest : (rates.waits now est).max? with
  | none => simp [List.max?_eq_none_iff.mp longest]
  | some wait => exact List.max?_le_iff longest

/-- No call is admitted while the model is blocked. -/
theorem unblocked_of_wait {est : Int} (admits : rates.wait now est ≤ 0) :
    rates.blockedUntil ≤ now := by
  by_contra blocked
  have blocked := not_le.mp blocked
  have := wait_le_zero.mp admits (rates.blockedUntil - now) (by simp [Rates.waits, blocked])
  linarith

theorem waits_refill {w : Window} {need : Int} (refills : w.resetAt ≤ now) :
    ∀ wait ∈ (w.refill now).waits now need, wait ≤ 0 := by
  intro wait mem
  cases left : w.left with
  | none => simp [Window.refill, Window.waits, left] at mem
  | some left =>
    simp only [Window.refill, left, refills, ↓reduceIte, Window.waits] at mem
    split at mem
    · rw [List.mem_singleton.mp mem]
      linarith
    · simp at mem

/-- The block and both windows are over by a time. -/
structure Rates.Over (rates : Rates) (time : Rat) : Prop where
  blocked : rates.blockedUntil ≤ time
  tokens : rates.tokens.resetAt ≤ time
  requests : rates.requests.resetAt ≤ time

theorem Rates.Over.admits (past : rates.Over now) (est : Int) :
    rates.wait now est ≤ 0 := by
  refine wait_le_zero.mpr fun wait mem => ?_
  rw [Rates.waits, if_neg past.blocked.not_gt, List.nil_append, List.mem_append] at mem
  exact mem.elim (waits_refill past.tokens wait) (waits_refill past.requests wait)

/-- A call looks again at least 0.05 s later, whatever the others did, so it ends with the first look after
the windows refilled. -/
theorem pace_ends {est : Int} {time : Rat} (looks : List (Rates × Rat)) (now : Rat) (some_look : looks ≠ [])
    (past : ∀ look ∈ looks, look.1.Over time ∧ 0 ≤ look.2) (enough : time ≤ now + (looks.length - 1) / 20) :
    pace est looks now ≠ .waiting := by
  induction looks generalizing now with
  | nil => exact absurd rfl some_look
  | cons look looks ih =>
    obtain ⟨here, late⟩ := past look (by simp)
    rw [pace]
    split
    · simp
    · rename_i waits
      split
      · simp
      · have waits := not_le.mp waits
        have more : looks ≠ [] := by
          rintro rfl
          have now_over : time ≤ now := by simpa using enough
          exact waits.not_ge (Rates.Over.admits ⟨here.blocked.trans now_over, here.tokens.trans now_over,
            here.requests.trans now_over⟩ est)
        refine ih _ more (fun look mem => past look (List.mem_cons_of_mem _ mem)) ?_
        simp only [List.length_cons, Nat.cast_add, Nat.cast_one, add_sub_cancel_right] at enough
        linarith

/-! ## Runs -/

namespace Pacing

structure Kept (s : Pacing) : Prop where
  tokens : s.tokens.Kept s.rates.tokens
  requests : s.requests.Kept s.rates.requests

variable {s s' : Pacing}

theorem Kept.look {now : Rat} {est : Int} {positive : 0 < est} (kept : s.Kept)
    (alone : s.Alone (.look now est positive)) (taken : s.step (.look now est positive) = some s') : s'.Kept := by
  have tokens := kept.tokens.refill alone.1
  have requests := kept.requests.refill alone.2
  cases taken
  by_cases admits : s.rates.wait now est ≤ 0
  · have waits := wait_le_zero.mp admits
    simp only [Rates.waits, List.mem_append] at waits
    have tokens_left := kept.tokens.need_le (fun limit here positive => by
      simp [Window.limitOr, Option.filter, Option.mem_def.mp here, positive.ne'])
      fun wait mem => waits wait (.inl (.inr mem))
    have requests_left := kept.requests.need_le (fun _ _ positive => positive)
      fun wait mem => waits wait (.inr mem)
    simp only [admits, ↓reduceIte, Rates.look]
    exact ⟨tokens.hold ⟨_, est, positive⟩ (by simpa using tokens_left),
      requests.hold ⟨_, 1, Int.one_pos⟩ fun left here => min_le_left _ _ |>.trans (requests_left left here)⟩
  · simp only [admits, ↓reduceIte, Rates.look]
    exact ⟨tokens, requests⟩

theorem Kept.step {ev : PacingEvent} (kept : s.Kept) (alone : s.Alone ev) (taken : s.step ev = some s') :
    s'.Kept := by
  cases ev with
  | look now est positive => exact kept.look alone taken
  | answer id now tokens requests =>
    cases taken
    exact ⟨(kept.tokens.answer id).learn alone.1.1 alone.1.2, (kept.requests.answer id).learn alone.2.1 alone.2.2⟩
  | block now seconds =>
    cases taken
    exact ⟨kept.tokens, kept.requests⟩

/-- What is admitted has room while each report comes when no other call is out, and no window is refilled
again under a call. No call is admitted while the model is blocked, and each has the wait end. -/
theorem paced_of_alone (reached : Reaches step Alone fresh s) :
    s.tokens.Within s.rates.tokens ∧ s.requests.Within s.rates.requests ∧
      (∀ now est, s.rates.wait now est ≤ 0 → s.rates.blockedUntil ≤ now) ∧
      (∀ now est, s.rates.Over now → s.rates.wait now est ≤ 0) ∧
      ∀ est looks (time now : Rat), looks ≠ [] → (∀ look ∈ looks, look.1.Over time ∧ 0 ≤ look.2) →
        time ≤ now + (looks.length - 1) / 20 → pace est looks now ≠ .waiting := by
  have kept := reached.invariant Kept ⟨.unknown, .unknown⟩ fun _ _ _ kept alone taken => kept.step alone taken
  exact ⟨kept.tokens.within, kept.requests.within, fun _ _ => unblocked_of_wait, fun _ est past => past.admits est,
    fun _ looks _ now => pace_ends looks now⟩

/-- Two calls are admitted one after the other, and a third waits for the window. -/
theorem two_paced : (40 + 50 : Int) ≤ 100 := by
  have reached : Reaches step Alone fresh
      ⟨⟨⟨some 100, some 10, 1⟩, ⟨none, none, 0⟩, 0⟩, ⟨some 100, false, [⟨2, 50, by decide⟩, ⟨1, 40, by decide⟩]⟩,
        ⟨none, false, [⟨2, 1, by decide⟩, ⟨1, 1, by decide⟩]⟩, 3⟩ :=
    .checked [.look 0 20 (by decide), .answer 0 0 ⟨some 100, some 100, some 1⟩ ⟨none, none, none⟩,
      .look (1 / 2) 40 (by decide), .look (1 / 2) 50 (by decide), .look (1 / 2) 20 (by decide)]
    (by with_unfolding_all decide)
  rcases (paced_of_alone reached).1 100 rfl with within | ⟨call, limit, one, -⟩
  · exact within
  · simp at one

/-- Two calls that look after the window refilled both find it full. -/
theorem refilled_twice : ¬∀ s, Reaches step Always fresh s → s.tokens.Within s.rates.tokens := by
  intro all
  have reached : Reaches step Always fresh
      ⟨⟨⟨some 100, some 0, 1⟩, ⟨none, none, 0⟩, 0⟩, ⟨some 100, true, [⟨2, 100, by decide⟩, ⟨1, 100, by decide⟩]⟩,
        ⟨none, false, [⟨2, 1, by decide⟩, ⟨1, 1, by decide⟩]⟩, 3⟩ :=
    Reaches.run .refl [.look 0 10 (by decide), .answer 0 0 ⟨some 100, some 0, some 1⟩ ⟨none, none, none⟩,
      .look 2 100 (by decide), .look 2 100 (by decide)] (fun _ _ _ => trivial) (by with_unfolding_all decide)
  rcases all _ reached 100 rfl with past | ⟨call, limit, one, -⟩
  · exact absurd past (by decide)
  · simp at one

end Pacing
end FreeSwarm.External
