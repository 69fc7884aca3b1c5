import Mathlib.Algebra.GroupWithZero.Nat
import FreeSwarm.Foundation.Dict

/-!
# Totals of dictionaries

What the pairs of a dictionary add up to, when each counts for a number. An assignment changes the total by
what it puts in place of what was there.
-/

namespace FreeSwarm.Foundation

variable {α β : Type*}

def pairTotal (f : α → β → Nat) (pairs : List (α × β)) : Nat :=
  (pairs.map fun pair => f pair.1 pair.2).sum

variable (f : α → β → Nat)

@[simp]
theorem pairTotal_nil : pairTotal f [] = 0 := rfl

@[simp]
theorem pairTotal_cons (pair : α × β) (pairs : List (α × β)) :
    pairTotal f (pair :: pairs) = f pair.1 pair.2 + pairTotal f pairs := List.sum_cons

theorem pairTotal_append (pairs pairs' : List (α × β)) :
    pairTotal f (pairs ++ pairs') = pairTotal f pairs + pairTotal f pairs' := by
  rw [pairTotal, List.map_append, List.sum_append]
  rfl

theorem pairTotal_eraseIdx {i : Nat} {pair : α × β} {pairs : List (α × β)}
    (there : pairs[i]? = some pair) :
    pairTotal f (pairs.eraseIdx i) + f pair.1 pair.2 = pairTotal f pairs := by
  induction pairs generalizing i with
  | nil => cases there
  | cons first rest ih =>
    cases i with
    | zero =>
      cases there
      rw [List.eraseIdx_cons_zero, pairTotal_cons, Nat.add_comm]
    | succ i =>
      have later := ih (i := i) there
      rw [List.eraseIdx_cons_succ, pairTotal_cons, pairTotal_cons]
      omega

def Dict.total (f : α → β → Nat) (d : Dict α β) : Nat := pairTotal f d.entries

variable [DecidableEq α]

theorem pairTotal_setKey (f : α → β → Nat) (key : α) (value : β) (pairs : List (α × β)) :
    pairTotal f (setKey key value pairs) + (pairs.lookup key).elim 0 (f key) =
      pairTotal f pairs + f key value := by
  induction pairs with
  | nil => simp [setKey]
  | cons pair rest ih =>
    obtain ⟨k, v⟩ := pair
    rw [setKey, List.lookup_cons]
    by_cases same : k = key
    · subst same
      rw [if_pos rfl, beq_self_eq_true, pairTotal_cons, pairTotal_cons]
      show f k value + pairTotal f rest + f k v = f k v + pairTotal f rest + f k value
      omega
    · rw [if_neg same, beq_eq_false_iff_ne.mpr (Ne.symm same), pairTotal_cons, pairTotal_cons]
      show f k v + pairTotal f (setKey key value rest) + (rest.lookup key).elim 0 (f key) = _
      dsimp only at ih ⊢
      omega

namespace Dict
variable {d : Dict α β} {key : α} {value : β}

variable (f : α → β → Nat)

theorem total_set :
    (d.set key value).total f + (d.get? key).elim 0 (f key) = d.total f + f key value :=
  pairTotal_setKey f key value d.entries

def upsert (add : β → β → β) (d : Dict α β) (key : α) (value : β) : Dict α β :=
  d.set key ((d.get? key).elim value fun old => add old value)

theorem total_upsert {add : β → β → β}
    (adds : ∀ key old value, f key (add old value) = f key old + f key value) :
    (d.upsert add key value).total f = d.total f + f key value := by
  have set : (d.set key ((d.get? key).elim value fun old => add old value)).total f +
      (d.get? key).elim 0 (f key) = d.total f + f key ((d.get? key).elim value fun old => add old value) :=
    total_set f
  rw [upsert]
  cases here : d.get? key with
  | none =>
    rw [here] at set
    exact set
  | some old =>
    rw [here] at set
    have same : f key (add old value) = f key old + f key value := adds key old value
    simp only [Option.elim_some] at set ⊢
    omega

/-- The pairs are added one after the other. -/
def upserts (add : β → β → β) (d : Dict α β) (pairs : List (α × β)) : Dict α β :=
  pairs.foldl (fun d pair => d.upsert add pair.1 pair.2) d

theorem total_upserts {add : β → β → β}
    (adds : ∀ key old value, f key (add old value) = f key old + f key value) (pairs : List (α × β)) :
    (d.upserts add pairs).total f = d.total f + pairTotal f pairs := by
  induction pairs generalizing d with
  | nil => rfl
  | cons pair rest ih =>
    rw [upserts, List.foldl_cons]
    have later : ((d.upsert add pair.1 pair.2).upserts add rest).total f = _ := ih
    rw [← upserts, later, total_upsert f adds, pairTotal_cons, Nat.add_assoc]

end Dict
end FreeSwarm.Foundation
