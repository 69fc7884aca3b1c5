import FreeSwarm.Foundation.Machine
import FreeSwarm.Foundation.Table

/-!
# The slots of a peer

A peer says how many requests it serves at once, and each request to it takes a slot of a semaphore of that
size. A request asks for the semaphore when it is relayed, and a new one is made whenever the number
changed. The requests that hold a slot of the old one, or wait for one, keep to it.
-/

namespace FreeSwarm.Federation

open FreeSwarm.Foundation

/-- `LEGACY_MAX_CONCURRENT`: what a peer serves that does not say so. -/
def legacyMaxConcurrent : Nat := 4

/-- How a look at the models of the peer ends. -/
inductive SyncOutcome where
  | listed (maxConcurrent : Option Nat)
  | refused
  | sslError
  | failed

/-- The number that is kept of the peer. -/
def SyncOutcome.maxConcurrent (before : Option Nat) : SyncOutcome → Option Nat
  | .listed maxConcurrent => maxConcurrent
  | .refused => none
  | .sslError => none
  | .failed => before

structure Semaphore where
  size : Nat
  value : Nat
  deriving DecidableEq

/-- Where a request to the peer is. -/
inductive Turn where
  | waits (slots : Nat)
  | holds (slots : Nat) (seen : Nat)
  | ended
  deriving DecidableEq

def Turn.InFlight (turn : Turn) : Prop :=
  match turn with
  | .holds _ _ => True
  | _ => False

instance : DecidablePred Turn.InFlight := fun turn => by
  cases turn <;> unfold Turn.InFlight <;> infer_instance

/-- The semaphore of the request. -/
def Turn.slots : Turn → Option Nat
  | .waits slots => some slots
  | .holds slots _ => some slots
  | .ended => none

/-- Another number is in force. -/
def Turn.see (limit : Nat) : Turn → Turn
  | .holds slots seen => .holds slots (max seen limit)
  | turn => turn

/-- What this computer knows of a peer, and its requests to it. -/
structure Peering where
  /-- `max_concurrent` of the entry of `_remote_models`. -/
  advertised : Option Nat
  semaphores : List Semaphore
  /-- The one in `_peer_slots`. -/
  stored : Option Nat
  turns : List Turn
  /-- A request took a slot of the stored semaphore when as many requests were in flight as it has slots,
  those with slots of other ones included. -/
  bypassed : Bool
  deriving DecidableEq

/-- What happens between this computer and the peer. -/
inductive PeeringEvent where
  | sync (outcome : SyncOutcome)
  | disconnect
  | relay
  | acquire (request : Nat)
  | release (request : Nat)
  | giveUp (request : Nat)

namespace Peering

variable (p : Peering)

/-- `want`: the number in force. -/
def want : Nat :=
  match p.advertised with
  | none => legacyMaxConcurrent
  | some 0 => legacyMaxConcurrent
  | some (n + 1) => n + 1

/-- The stored semaphore, if it was made for the number in force. -/
def current : Option Nat :=
  p.stored.filter fun slots => p.semaphores[slots]?.any fun sem => sem.size = p.want

/-- `_slots`: the stored semaphore, or a new one where there is none or the number changed. -/
def slots : Peering × Nat :=
  match p.current with
  | some slots => (p, slots)
  | none =>
    ({ p with
        semaphores := p.semaphores ++ [⟨p.want, p.want⟩]
        stored := some p.semaphores.length }, p.semaphores.length)

def inFlight : Nat := rowCount Turn.InFlight p.turns

/-- The requests in flight see the number that is in force now. -/
def see : Peering := { p with turns := p.turns.map (Turn.see p.want) }

/-- What happens, if it can. -/
def step : PeeringEvent → Option Peering
  | .sync outcome => some { p with advertised := outcome.maxConcurrent p.advertised }.see
  | .disconnect => some { p with advertised := none, stored := none }.see
  | .relay =>
    let (p', slots) := p.slots
    some { p' with turns := p'.turns ++ [.waits slots] }
  | .acquire request =>
    match p.turns[request]? with
    | some (.waits slots) =>
      match p.semaphores[slots]? with
      | some ⟨size, value + 1⟩ => some { p with
          semaphores := p.semaphores.set slots ⟨size, value⟩
          turns := p.turns.set request (.holds slots p.want)
          bypassed := p.bypassed || (p.stored = some slots && decide (size ≤ p.inFlight)) }
      | _ => none
    | _ => none
  | .release request =>
    match p.turns[request]? with
    | some (.holds slots _) =>
      match p.semaphores[slots]? with
      | some ⟨size, value⟩ => some { p with
          semaphores := p.semaphores.set slots ⟨size, value + 1⟩
          turns := p.turns.set request .ended }
      | none => none
    | _ => none
  | .giveUp request =>
    match p.turns[request]? with
    | some (.waits _) => some { p with turns := p.turns.set request .ended }
    | _ => none

/-- The requests in flight are at most as many as the peer served at some time when one of them was in
flight, and none took a slot past those that are held. -/
structure Within : Prop where
  capped : 0 < p.inFlight → ∃ slots seen, Turn.holds slots seen ∈ p.turns ∧ p.inFlight ≤ seen
  behind : p.bypassed = false

/-- A new semaphore is made only when no request waits for a slot of an old one or holds one, and a slot is
taken only when the number in force is not below the one that its semaphore was made for. -/
def Settled (p : Peering) : PeeringEvent → Prop
  | .relay => p.current = none → ∀ turn ∈ p.turns, turn = .ended
  | .acquire request => ∀ turn ∈ p.turns[request]?, ∀ slots ∈ turn.slots, ∀ sem ∈ p.semaphores[slots]?,
      sem.size ≤ p.want
  | _ => True

instance : ∀ ev, Decidable (p.Settled ev)
  | .relay => inferInstanceAs (Decidable (_ → _))
  | .acquire request => inferInstanceAs (Decidable (∀ turn ∈ p.turns[request]?, ∀ slots ∈ turn.slots,
      ∀ sem ∈ p.semaphores[slots]?, sem.size ≤ p.want))
  | .sync _ | .disconnect | .release _ | .giveUp _ => inferInstanceAs (Decidable True)

/-- No request was relayed. -/
def unused : Peering := ⟨none, [], none, [], false⟩

end Peering

@[simp]
theorem Turn.slots_see (limit : Nat) (turn : Turn) : (turn.see limit).slots = turn.slots := by
  cases turn <;> rfl

theorem Turn.inFlight_see (limit : Nat) (turn : Turn) :
    (turn.see limit).InFlight ↔ turn.InFlight := by
  cases turn <;> exact Iff.rfl

namespace Peering
variable {p p' : Peering} {slots request : Nat}

/-- All requests that did not end keep to the semaphore that was made last. -/
structure Kept (p : Peering) : Prop where
  last : ∀ turn ∈ p.turns, ∀ slots, turn.slots = some slots → slots + 1 = p.semaphores.length
  stored : ∀ slots, p.stored = some slots → slots + 1 = p.semaphores.length
  free : ∀ slots sem, slots + 1 = p.semaphores.length → p.semaphores[slots]? = some sem →
    sem.value + p.inFlight = sem.size
  seen : ∀ slots seen, Turn.holds slots seen ∈ p.turns → ∀ sem, p.semaphores[slots]? = some sem →
    sem.size ≤ seen
  behind : p.bypassed = false

theorem kept_unused : unused.Kept where
  last _ mem := nomatch mem
  stored _ same := nomatch same
  free _ _ _ there := nomatch there
  seen _ _ mem := nomatch mem
  behind := rfl

theorem Kept.within (kept : p.Kept) : p.Within where
  capped some_ := by
    obtain ⟨turn, mem, flies⟩ := exists_of_rowCount_ne_zero (Nat.ne_of_gt some_)
    cases turn with
    | waits slots => exact flies.elim
    | ended => exact flies.elim
    | holds slots seen =>
      have last := kept.last _ mem slots rfl
      obtain ⟨sem, there⟩ : ∃ sem, p.semaphores[slots]? = some sem :=
        ⟨_, List.getElem?_eq_getElem (by omega)⟩
      have free := kept.free slots sem last there
      have large := kept.seen slots seen mem sem there
      exact ⟨slots, seen, mem, by omega⟩
  behind := kept.behind

/-! ## Steps -/

theorem Kept.see (kept : p.Kept) : p.see.Kept where
  last turn mem slots has := by
    obtain ⟨before, there, rfl⟩ := List.mem_map.mp mem
    rw [Turn.slots_see] at has
    exact kept.last before there slots has
  stored := kept.stored
  free slots sem last there := by
    have same : p.see.inFlight = p.inFlight := by
      show rowCount _ (p.turns.map _) = _
      rw [rowCount, List.countP_map]
      exact rowCount_congr fun turn _ => Turn.inFlight_see _ turn
    rw [same]
    exact kept.free slots sem last there
  seen slots seen mem sem there := by
    obtain ⟨before, old, same⟩ := List.mem_map.mp mem
    cases before with
    | waits slots => cases same
    | ended => cases same
    | holds slots seen =>
      obtain ⟨rfl, rfl⟩ := Turn.holds.inj same
      exact Nat.le_trans (kept.seen _ _ old sem there) (Nat.le_max_left _ _)
  behind := kept.behind

theorem Kept.waits (kept : p.Kept) (last : slots + 1 = p.semaphores.length) :
    ({ p with turns := p.turns ++ [.waits slots] } : Peering).Kept where
  last turn mem slots' has := by
    rcases mem_concat mem with before | rfl
    · exact kept.last turn before slots' has
    · cases has
      exact last
  stored := kept.stored
  free slots' sem last there := by
    have same := @rowCount_concat _ Turn.InFlight _ p.turns (.waits slots)
    have free := kept.free slots' sem last there
    rw [if_neg (show ¬(Turn.waits slots).InFlight from id), Nat.add_zero] at same
    show sem.value + rowCount _ _ = sem.size
    rw [same]
    exact free
  seen slots' seen mem sem there := by
    rcases mem_concat mem with before | new
    · exact kept.seen slots' seen before sem there
    · nomatch new
  behind := kept.behind

theorem Kept.remade (kept : p.Kept) (ended : ∀ turn ∈ p.turns, turn = .ended) :
    ({ p with
        semaphores := p.semaphores ++ [⟨p.want, p.want⟩]
        stored := some p.semaphores.length } : Peering).Kept where
  last turn mem slots has := by
    rw [ended turn mem] at has
    nomatch has
  stored slots same := by
    rw [← Option.some.inj same, List.length_append]
    rfl
  free slots sem last there := by
    have none_ : p.inFlight = 0 := by
      rw [inFlight, rowCount_eq_zero]
      intro turn mem flies
      rw [ended turn mem] at flies
      exact flies
    rw [List.length_append] at last
    obtain rfl : slots = p.semaphores.length := Nat.succ.inj last
    rw [List.getElem?_concat_length] at there
    rw [← Option.some.inj there]
    show p.want + p.inFlight = p.want
    omega
  seen slots seen mem := nomatch ended _ mem
  behind := kept.behind

theorem Kept.given (kept : p.Kept) (settled : p.Settled .relay) :
    p.slots.1.Kept ∧ p.slots.2 + 1 = p.slots.1.semaphores.length := by
  rw [Peering.slots]
  cases here : p.current with
  | some slots => exact ⟨kept, kept.stored slots (Option.filter_eq_some_iff.mp here).1⟩
  | none =>
    refine ⟨kept.remade (settled here), ?_⟩
    show _ = (p.semaphores ++ [_]).length
    rw [List.length_append]
    rfl

theorem Kept.moves (kept : p.Kept) {turn turn' : Turn} {sem sem' : Semaphore} {bypassed : Bool}
    (there : p.turns[request]? = some turn) (has : turn.slots = some slots)
    (keeps : ∀ slots', turn'.slots = some slots' → slots' = slots)
    (here : p.semaphores[slots]? = some sem) (size : sem'.size = sem.size)
    (value : sem'.value + (if turn'.InFlight then 1 else 0) =
      sem.value + if turn.InFlight then 1 else 0)
    (seen : ∀ slots' seen, turn' = .holds slots' seen → sem.size ≤ seen)
    (behind : bypassed = false) :
    ({ p with
        semaphores := p.semaphores.set slots sem'
        turns := p.turns.set request turn'
        bypassed := bypassed } : Peering).Kept where
  last other mem slots' has' := by
    rw [List.length_set]
    rcases List.mem_or_eq_of_mem_set mem with before | rfl
    · exact kept.last other before slots' has'
    · rw [keeps slots' has']
      exact kept.last turn (List.mem_of_getElem? there) slots has
  stored slots' same := by
    rw [List.length_set]
    exact kept.stored slots' same
  free slots' other last there' := by
    rw [List.length_set] at last
    have own := kept.last turn (List.mem_of_getElem? there) slots has
    obtain rfl : slots' = slots := by omega
    rw [List.getElem?_set_self (List.getElem?_eq_some_iff.mp here).1] at there'
    obtain rfl := Option.some.inj there'
    have counts := rowCount_set (p := Turn.InFlight) turn' there
    have free := kept.free slots' sem last here
    show sem'.value + rowCount Turn.InFlight (p.turns.set request turn') = sem'.size
    rw [inFlight] at free
    omega
  seen slots' number mem other there' := by
    have old : sem.size ≤ number := by
      rcases List.mem_or_eq_of_mem_set mem with before | same
      · have last := kept.last _ before slots' rfl
        have own := kept.last turn (List.mem_of_getElem? there) slots has
        obtain rfl : slots' = slots := by omega
        exact kept.seen slots' number before sem here
      · exact seen slots' number same.symm
    have own : slots' = slots := by
      rcases List.mem_or_eq_of_mem_set mem with before | same
      · have last := kept.last _ before slots' rfl
        have own := kept.last turn (List.mem_of_getElem? there) slots has
        omega
      · exact keeps slots' (same ▸ rfl)
    subst own
    rw [List.getElem?_set_self (List.getElem?_eq_some_iff.mp here).1] at there'
    obtain rfl := Option.some.inj there'
    rw [size]
    exact old
  behind := behind

theorem Kept.step (kept : p.Kept) {ev : PeeringEvent} (settled : p.Settled ev)
    (taken : p.step ev = some p') : p'.Kept := by
  cases ev with
  | sync outcome =>
    cases taken
    exact Kept.see ⟨kept.last, kept.stored, kept.free, kept.seen, kept.behind⟩
  | disconnect =>
    cases taken
    exact Kept.see ⟨kept.last, fun _ none_ => (nomatch none_), kept.free, kept.seen, kept.behind⟩
  | relay =>
    cases taken
    exact (kept.given settled).1.waits (kept.given settled).2
  | acquire request =>
    rw [Peering.step] at taken
    split at taken
    case h_2 => nomatch taken
    case h_1 slots there =>
      split at taken
      case h_2 => nomatch taken
      case h_1 size value here =>
        cases taken
        have last := kept.last _ (List.mem_of_getElem? there) slots rfl
        have free := kept.free slots _ last here
        -- a slot is free, so that fewer requests are in flight than it has slots
        have room : ¬size ≤ p.inFlight := by
          show ¬size ≤ _
          change value + 1 + p.inFlight = size at free
          omega
        refine kept.moves there rfl (fun _ same => (Option.some.inj same).symm) here rfl rfl ?_ ?_
        · intro slots' seen same
          rw [← (Turn.holds.inj same).2]
          exact settled _ there slots rfl _ here
        · rw [kept.behind, decide_eq_false room, Bool.and_false, Bool.or_false]
  | release request =>
    rw [Peering.step] at taken
    split at taken
    case h_2 => nomatch taken
    case h_1 slots seen there =>
      split at taken
      case h_2 => nomatch taken
      case h_1 size value here =>
        cases taken
        exact kept.moves there rfl (fun _ none_ => nomatch none_) here rfl rfl
          (fun _ _ same => nomatch same) kept.behind
  | giveUp request =>
    rw [Peering.step] at taken
    split at taken
    case h_2 => nomatch taken
    case h_1 slots there =>
      cases taken
      have last := kept.last _ (List.mem_of_getElem? there) slots rfl
      obtain ⟨sem, here⟩ : ∃ sem, p.semaphores[slots]? = some sem :=
        ⟨_, List.getElem?_eq_getElem (by omega)⟩
      have same : p.semaphores.set slots sem = p.semaphores := by
        rw [← (List.getElem?_eq_some_iff.mp here).2, List.set_getElem_self]
      have moved := kept.moves there rfl (fun _ (none_ : Turn.ended.slots = some _) => nomatch none_) here rfl rfl
        (fun _ _ same => nomatch same) kept.behind
      rw [same] at moved
      exact moved

/-- The requests in flight stay within what the peer serves in every run in which a new semaphore is made
only when no request has an old one, and a slot is taken only of one that is not larger than the number in
force. -/
theorem within_of_settled (reached : Reaches step Settled unused p) : p.Within :=
  (reached.invariant Kept kept_unused fun _ _ _ kept settled taken => kept.step settled taken).within

/-- Two requests to a peer that serves two, and one more when it serves three. -/
theorem grown_within :
    (⟨some 3, [⟨2, 2⟩, ⟨3, 2⟩], some 1, [.ended, .ended, .holds 1 3], false⟩ : Peering).Within :=
  within_of_settled (.checked [.sync (.listed (some 2)), .relay, .acquire 0, .relay, .acquire 1,
    .release 0, .release 1, .sync (.listed (some 3)), .relay, .acquire 2] (by decide))

/-- Two requests are in flight to a peer that serves two when it says that it serves one: the next request
takes the slot of a new semaphore, and three are in flight. -/
theorem shrunk_exceeds : ¬∀ p, Reaches step Always unused p → p.Within := by
  intro all
  have reached : Reaches step Always unused
      ⟨some 1, [⟨2, 0⟩, ⟨1, 0⟩], some 1, [.holds 0 2, .holds 0 2, .holds 1 1], true⟩ :=
    Reaches.run .refl [.sync (.listed (some 2)), .relay, .acquire 0, .relay, .acquire 1,
      .sync (.listed (some 1)), .relay, .acquire 2] (fun _ _ _ => trivial) (by decide)
  obtain ⟨slots, seen, mem, large⟩ := (all _ reached).capped (by decide)
  have three : 3 ≤ seen := large
  have few : ∀ turn ∈ [Turn.holds 0 2, .holds 0 2, .holds 1 1], ∀ slots seen,
      turn = .holds slots seen → seen ≤ 2 := by
    simp
  have two := few _ mem slots seen rfl
  omega

end Peering
end FreeSwarm.Federation
