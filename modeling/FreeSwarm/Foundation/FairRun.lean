import FreeSwarm.Foundation.Machine
import Mathlib.Data.Nat.Init

/-!
# Runs without an end

What a machine does at each of infinitely many moments. A run is fair to some events when it does not
leave them possible for ever without taking one. Such events finish what they lessen, when nothing
else that happens enlarges it.
-/

namespace FreeSwarm.Foundation

variable {S E : Type}

structure Run (step : S → E → Option S) (meets : S → E → Prop) where
  states : Nat → S
  events : Nat → Option E
  condition : ∀ n ev, events n = some ev → meets (states n) ev
  taken : ∀ n, (events n).elim (some (states n)) (step (states n)) = some (states (n + 1))

/-- One of the events may be taken. -/
def Enabled (step : S → E → Option S) (own : S → E → Prop) (s : S) : Prop :=
  ∃ ev, own s ev ∧ (step s ev).isSome

namespace Run
variable {step : S → E → Option S} {meets own : S → E → Prop}

/-- At each moment one of the events is still to come, or they are not possible at some moment. -/
def Fair (run : Run step meets) (own : S → E → Prop) : Prop :=
  ∀ n, ∃ m, n ≤ m ∧
    ((∃ ev, run.events m = some ev ∧ own (run.states m) ev) ∨ ¬Enabled step own (run.states m))

variable (run : Run step meets)

theorem next (n : Nat) :
    run.states (n + 1) = run.states n ∧ run.events n = none ∨
      ∃ ev, run.events n = some ev ∧ meets (run.states n) ev ∧
        step (run.states n) ev = some (run.states (n + 1)) := by
  have taken := run.taken n
  cases event : run.events n with
  | none =>
    rw [event] at taken
    exact .inl ⟨(Option.some.inj taken).symm, rfl⟩
  | some ev =>
    rw [event] at taken
    exact .inr ⟨ev, rfl, run.condition n ev event, taken⟩

theorem reaches (n : Nat) :
    Reaches step meets (run.states 0) (run.states n) := by
  induction n with
  | zero => exact .refl
  | succ n ih =>
    cases run.next n with
    | inl idle =>
      rw [idle.1]
      exact ih
    | inr moves =>
      obtain ⟨ev, -, condition, taken⟩ := moves
      exact .step ih condition taken

def idle (s : S) : Run step meets where
  states _ := s
  events _ := none
  condition _ _ event := nomatch event
  taken _ := rfl

/-- A run with one more step before it. -/
def cons {s s' : S} {ev : E} (taken : step s ev = some s') (condition : meets s ev)
    (run : Run step meets) (begins : run.states 0 = s') : Run step meets where
  states
    | 0 => s
    | n + 1 => run.states n
  events
    | 0 => some ev
    | n + 1 => run.events n
  condition
    | 0, _, event => Option.some.inj event ▸ condition
    | n + 1, ev, event => run.condition n ev event
  taken
    | 0 => by
      show step s ev = some (run.states 0)
      rw [begins]
      exact taken
    | n + 1 => run.taken n

def restrict {meets' : S → E → Prop} (run : Run step meets)
    (condition : ∀ n ev, run.events n = some ev → meets' (run.states n) ev) : Run step meets' where
  states := run.states
  events := run.events
  condition := condition
  taken := run.taken

/-- What holds in each state exactly if each step meets a condition: the steps that meet it keep an
invariant, and any other one leads from the invariant to where it does not hold. -/
theorem holds_iff (inv holds : S → Prop) (condition : S → E → Prop)
    (begins : inv (run.states 0)) (implies : ∀ s, inv s → holds s)
    (keeps : ∀ s ev s', inv s → meets s ev → condition s ev → step s ev = some s' → inv s')
    (breaks : ∀ s ev s', inv s → meets s ev → ¬condition s ev → step s ev = some s' → ¬holds s') :
    (∀ n, holds (run.states n)) ↔ ∀ n ev, run.events n = some ev → condition (run.states n) ev := by
  constructor
  · intro all
    -- the states up to a moment keep the invariant, so that the next event meets the condition
    have both : ∀ n, inv (run.states n) := by
      intro n
      induction n with
      | zero => exact begins
      | succ n ih =>
        cases run.next n with
        | inl idle =>
          rw [idle.1]
          exact ih
        | inr moves =>
          obtain ⟨ev, -, first, taken⟩ := moves
          by_cases second : condition (run.states n) ev
          · exact keeps _ _ _ ih first second taken
          · exact absurd (all (n + 1)) (breaks _ _ _ ih first second taken)
    intro n ev event
    by_contra not_
    have taken := run.taken n
    rw [event, Option.elim_some] at taken
    exact breaks _ _ _ (both n) (run.condition n ev event) not_ taken (all (n + 1))
  · intro second n
    let both : S → E → Prop := fun s ev => meets s ev ∧ condition s ev
    have meets_ : ∀ n ev, run.events n = some ev → both (run.states n) ev :=
      fun n ev event => ⟨run.condition n ev event, second n ev event⟩
    exact implies _ (((run.restrict meets_).reaches n).invariant inv begins
      fun s ev s' kept meets_ taken => keeps s ev s' kept meets_.1 meets_.2 taken)

section

variable {going finished : S → Prop} {rank : S → Nat}

/-- What goes on without an end goes on at each later moment, and its rank does not grow. -/
theorem going_on (run : Run step meets)
    (steps : ∀ s ev s', going s → meets s ev → step s ev = some s' →
      finished s' ∨ going s' ∧ rank s' ≤ rank s ∧ (own s ev → rank s' < rank s))
    {n : Nat} (now : going (run.states n)) (endless : ∀ m, n ≤ m → ¬finished (run.states m))
    (m : Nat) (later : n ≤ m) :
    going (run.states m) ∧ rank (run.states m) ≤ rank (run.states n) := by
  induction m, later using Nat.le_induction with
  | base => exact ⟨now, Nat.le_refl _⟩
  | succ m later ih =>
    cases run.next m with
    | inl idle =>
      rw [idle.1]
      exact ih
    | inr moves =>
      obtain ⟨ev, -, condition, taken⟩ := moves
      cases steps _ ev _ ih.1 condition taken with
      | inl ends => exact absurd ends (endless _ (Nat.le_succ_of_le later))
      | inr goes => exact ⟨goes.1, Nat.le_trans goes.2.1 ih.2⟩

variable (going finished rank) in
/-- What some events lessen, nothing enlarges, and always one of these events may change, is finished
in a run that is fair to them. -/
theorem finishes (run : Run step meets) (fair : run.Fair own)
    (enabled : ∀ s, going s → Enabled step own s)
    (steps : ∀ s ev s', going s → meets s ev → step s ev = some s' →
      finished s' ∨ going s' ∧ rank s' ≤ rank s ∧ (own s ev → rank s' < rank s))
    (n : Nat) (now : going (run.states n)) : ∃ m, n ≤ m ∧ finished (run.states m) := by
  -- the induction is on the rank, which a later event of its own lessens
  induction same : rank (run.states n) using Nat.strong_induction_on generalizing n with
  | h size ih =>
    by_contra endless
    have never : ∀ m, n ≤ m → ¬finished (run.states m) :=
      fun m later ends => endless ⟨m, later, ends⟩
    have on := run.going_on steps now never
    obtain ⟨m, later, acts⟩ := fair n
    obtain ⟨goes, small⟩ := on m later
    cases acts with
    | inr stuck => exact stuck (enabled _ goes)
    | inl acts =>
      obtain ⟨ev, event, mine⟩ := acts
      cases run.next m with
      | inl idle =>
        rw [idle.2] at event
        cases event
      | inr moves =>
        obtain ⟨ev', event', condition, taken⟩ := moves
        rw [event'] at event
        cases event
        cases steps _ _ _ goes condition taken with
        | inl ends => exact never _ (Nat.le_succ_of_le later) ends
        | inr less =>
          obtain ⟨goes', -, less⟩ := less
          have smaller : rank (run.states (m + 1)) < size := by
            have := less mine
            omega
          obtain ⟨last, after, ends⟩ := ih _ smaller (m + 1) goes' rfl
          exact endless ⟨last, by omega, ends⟩

end

/-! ## Finitely many events -/

theorem foldlM_take {events : List E} {start last : S} (runs : events.foldlM step start = some last)
    (n : Nat) : ∃ s, (events.take n).foldlM step start = some s := by
  rw [← List.take_append_drop n events, List.foldlM_append] at runs
  obtain ⟨s, first, -⟩ := Option.bind_eq_some_iff.mp runs
  exact ⟨s, first⟩

/-- Some events are taken, and then nothing happens. -/
def ofEvents (events : List E) (start last : S) (runs : events.foldlM step start = some last) :
    Run step Always where
  states n := ((events.take n).foldlM step start).getD last
  events n := events[n]?
  condition _ _ _ := trivial
  taken n := by
    obtain ⟨s, first⟩ := foldlM_take runs n
    obtain ⟨s', more⟩ := foldlM_take runs (n + 1)
    rw [first, more, Option.getD_some, Option.getD_some]
    rw [List.take_add_one, List.foldlM_append, first] at more
    cases event : events[n]? with
    | none =>
      rw [event] at more
      exact more
    | some ev =>
      rw [event] at more
      obtain ⟨t, taken, same⟩ := Option.bind_eq_some_iff.mp (show (step s ev >>= _) = some s' from more)
      rw [Option.elim_some, taken]
      exact same

theorem ofEvents_last {events : List E} {start last : S}
    (runs : events.foldlM step start = some last) (n : Nat) (later : events.length ≤ n) :
    (ofEvents events start last runs).states n = last := by
  show ((events.take n).foldlM step start).getD last = last
  rw [List.take_of_length_le later, runs, Option.getD_some]

end Run

end FreeSwarm.Foundation
