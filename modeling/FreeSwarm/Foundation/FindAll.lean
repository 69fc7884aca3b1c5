import FreeSwarm.Foundation.Markers

/-!
# All matches of a pattern

A pattern is given by its first match in a text and what is left behind the match. `findAll` collects
the matches from left to right, each searched behind the one before.
-/

namespace FreeSwarm.Foundation

variable {α β : Type*}

/-- The matches in a text, as many as the fuel allows. -/
def findAllFrom (next : List α → Option (β × List α)) : Nat → List α → List β
  | 0, _ => []
  | fuel + 1, text =>
    match next text with
    | none => []
    | some (found, rest) => found :: findAllFrom next fuel rest

def findAll (next : List α → Option (β × List α)) (text : List α) : List β :=
  findAllFrom next text.length text

/-- A match takes something from the text. -/
def Consumes (next : List α → Option (β × List α)) : Prop :=
  ∀ text found rest, next text = some (found, rest) → rest.length < text.length

variable {next : List α → Option (β × List α)}

theorem findAllFrom_enough (consumes : Consumes next)
    {fuel : Nat} {text : List α} (enough : text.length ≤ fuel) :
    findAllFrom next fuel text = findAll next text := by
  have general : ∀ (n m : Nat) (text : List α), text.length ≤ n → text.length ≤ m →
      findAllFrom next n text = findAllFrom next m text := by
    intro n
    induction n with
    | zero =>
      intro m text short _
      obtain rfl : text = [] := List.length_eq_zero_iff.mp (by omega)
      cases m with
      | zero => rfl
      | succ m =>
        cases found : next [] with
        | none => simp [findAllFrom, found]
        | some result => exact absurd (consumes _ _ _ found) (by simp)
    | succ n ih =>
      intro m text short short'
      cases m with
      | zero =>
        obtain rfl : text = [] := List.length_eq_zero_iff.mp (by omega)
        cases found : next [] with
        | none => simp [findAllFrom, found]
        | some result => exact absurd (consumes _ _ _ found) (by simp)
      | succ m =>
        rw [findAllFrom, findAllFrom]
        cases found : next text with
        | none => rfl
        | some result =>
          obtain ⟨b, rest⟩ := result
          have shorter := consumes _ _ _ found
          exact congrArg (b :: ·) (ih m rest (by omega) (by omega))
  exact general _ _ _ enough le_rfl

theorem findAll_some (consumes : Consumes next)
    {text rest : List α} {found : β} (first : next text = some (found, rest)) :
    findAll next text = found :: findAll next rest := by
  have shorter := consumes _ _ _ first
  obtain ⟨n, hn⟩ : ∃ n, text.length = n + 1 := ⟨text.length - 1, by omega⟩
  rw [findAll, hn, findAllFrom, first]
  exact congrArg (found :: ·) (findAllFrom_enough consumes (by omega))

theorem findAll_none {text : List α}
    (none_ : next text = none) : findAll next text = [] := by
  rw [findAll]
  cases text with
  | nil => rfl
  | cons c text => rw [List.length_cons, findAllFrom, none_]

variable [DecidableEq α]

def between (opened close text : List α) : Option (List α × List α) :=
  match splitSub opened text with
  | none => none
  | some (_, inside) => splitSub close inside

theorem splitSub_length {sub text left right : List α} (split : splitSub sub text = some (left, right)) :
    text.length = left.length + sub.length + right.length := by
  obtain ⟨rfl, -⟩ := splitSub_spec split
  rw [List.length_append, List.length_append]

theorem between_consumes {opened : List α} (some_ : opened ≠ []) (close : List α) :
    Consumes (between opened close) := by
  intro text body rest found
  rw [between] at found
  cases split : splitSub opened text with
  | none => simp [split] at found
  | some parts =>
    obtain ⟨before, inside⟩ := parts
    rw [split] at found
    have whole := splitSub_length split
    have whole' := splitSub_length found
    have positive := List.length_pos_iff.mpr some_
    omega

end FreeSwarm.Foundation
