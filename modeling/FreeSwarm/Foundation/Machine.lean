import Mathlib.Data.List.Basic

/-!
# Machines

A machine makes steps on events, each of which may be taken or not. What it reaches by steps that all
meet a condition is described by an invariant that those steps keep.
-/

namespace FreeSwarm.Foundation

variable {S E : Type}

/-- The states that a machine reaches by steps that each meet a condition on the state before them. -/
inductive Reaches (step : S → E → Option S) (meets : S → E → Prop) (start : S) : S → Prop
  | refl : Reaches step meets start start
  | step {s s' : S} {ev : E} (before : Reaches step meets start s) (condition : meets s ev)
      (taken : step s ev = some s') : Reaches step meets start s'

/-- Any step meets it. -/
def Always : S → E → Prop := fun _ _ => True

namespace Reaches
variable {step : S → E → Option S} {meets meets' : S → E → Prop} {start s s' : S}

theorem invariant (reached : Reaches step meets start s) (inv : S → Prop) (begins : inv start)
    (keeps : ∀ s ev s', inv s → meets s ev → step s ev = some s' → inv s') : inv s := by
  induction reached with
  | refl => exact begins
  | step before condition taken ih => exact keeps _ _ _ ih condition taken

theorem run (reached : Reaches step meets start s) (events : List E)
    (condition : ∀ ev ∈ events, ∀ s, meets s ev) (runs : events.foldlM step s = some s') :
    Reaches step meets start s' := by
  induction events generalizing s with
  | nil =>
    cases runs
    exact reached
  | cons ev events ih =>
    rw [List.foldlM_cons] at runs
    obtain ⟨between, taken, later⟩ := Option.bind_eq_some_iff.mp runs
    exact ih (.step reached (condition ev (by simp) s) taken)
      (fun ev mem => condition ev (List.mem_cons_of_mem _ mem)) later

/-- A run of some events, each of which is seen to meet the condition where it is taken, reaches its last
state. -/
theorem checked [∀ s ev, Decidable (meets s ev)] (events : List E)
    (runs : events.foldlM (fun s ev => if meets s ev then step s ev else none) start = some s) :
    Reaches step meets start s := by
  suffices ∀ between, Reaches step meets start between →
      events.foldlM (fun s ev => if meets s ev then step s ev else none) between = some s →
      Reaches step meets start s from this start .refl runs
  clear runs
  induction events with
  | nil =>
    intro between reached runs
    exact Option.some.inj runs ▸ reached
  | cons ev events ih =>
    intro between reached runs
    rw [List.foldlM_cons] at runs
    obtain ⟨next, taken, later⟩ := Option.bind_eq_some_iff.mp runs
    obtain ⟨condition, taken⟩ := Option.ite_none_right_eq_some.mp taken
    exact ih next (.step reached condition taken) later

end Reaches

/-- A step that is taken meets its guard. -/
theorem of_guard {p : Prop} [Decidable p] {s t : S} (taken : (if p then some t else none) = some s) :
    p ∧ t = s :=
  (Option.ite_none_right_eq_some.mp taken).imp_right Option.some.inj

theorem of_unless {p : Prop} [Decidable p] {s t : S} (taken : (if p then none else some t) = some s) :
    ¬p ∧ t = s :=
  (Option.ite_none_left_eq_some.mp taken).imp_right Option.some.inj

/-- What a guarded step can do: there is something to do it with, the guard holds of it, and it is
done. -/
theorem exists_of_guarded {A : Type} {x : Option A} {guard : A → Prop} [DecidablePred guard]
    {f : A → S} {s : S} (taken : (x.bind fun a => if guard a then some (f a) else none) = some s) :
    ∃ a, x = some a ∧ guard a ∧ f a = s := by
  obtain ⟨a, here, taken⟩ := Option.bind_eq_some_iff.mp taken
  exact ⟨a, here, of_guard taken⟩

/-! ## Logs -/

/-- A member of a list that got one more was there before, or is the new one. -/
theorem mem_concat {A : Type*} {l : List A} {a b : A} (mem : a ∈ l ++ [b]) : a ∈ l ∨ a = b :=
  (List.mem_append.mp mem).imp_right List.mem_singleton.mp

section

variable {R : Type}

/-- Each record of a log, the latest first, is in order after the ones before it. -/
def EachAfter (ok : R → List R → Prop) (log : List R) : Prop :=
  ∀ after r before, log = after ++ r :: before → ok r before

variable {ok : R → List R → Prop} {log : List R} {r : R}

theorem eachAfter_nil : EachAfter ok [] := fun after _ _ split => by cases after <;> cases split

theorem eachAfter_cons : EachAfter ok (r :: log) ↔ ok r log ∧ EachAfter ok log := by
  constructor
  · intro each
    refine ⟨each [] r log rfl, fun after r' before split => each (r :: after) r' before ?_⟩
    rw [split]
    rfl
  · rintro ⟨here, there⟩ after r' before split
    cases after with
    | nil =>
      cases split
      exact here
    | cons r'' after => exact there after r' before (List.cons.inj split).2

end

end FreeSwarm.Foundation
