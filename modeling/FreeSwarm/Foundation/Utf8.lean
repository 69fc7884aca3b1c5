import Mathlib.Data.List.Basic
import Mathlib.Data.List.Infix

/-!
# Lossy UTF-8 decoding

A byte decoder that never fails: every maximal part of an ill-formed sequence becomes one
replacement character, and so does a sequence the end of the input cuts short. The decoder is a
machine that holds the sequence it is in. Its text so far is settled except for that last
replacement character, which the next bytes may still turn into something else.
-/

namespace FreeSwarm.Foundation.Utf8

/-- The character that stands for an ill-formed or unfinished sequence. -/
def replacement : Char := '\uFFFD'

/-- A sequence that still needs continuation bytes. -/
structure Partial where
  bits : Nat
  more : Nat
  low : Nat
  high : Nat
  deriving DecidableEq, Repr

def start (byte : Nat) : List Char × Option Partial :=
  if byte < 0x80 then ([Char.ofNat byte], none)
  else if byte < 0xC2 then ([replacement], none)
  else if byte < 0xE0 then ([], some ⟨byte - 0xC0, 0, 0x80, 0xBF⟩)
  else if byte = 0xE0 then ([], some ⟨0, 1, 0xA0, 0xBF⟩)
  else if byte = 0xED then ([], some ⟨0xD, 1, 0x80, 0x9F⟩)
  else if byte < 0xF0 then ([], some ⟨byte - 0xE0, 1, 0x80, 0xBF⟩)
  else if byte = 0xF0 then ([], some ⟨0, 2, 0x90, 0xBF⟩)
  else if byte < 0xF4 then ([], some ⟨byte - 0xF0, 2, 0x80, 0xBF⟩)
  else if byte = 0xF4 then ([], some ⟨4, 2, 0x80, 0x8F⟩)
  else ([replacement], none)

/-- Read one byte: the characters it completes, and the sequence it leaves open. -/
def step (pending : Option Partial) (byte : Nat) : List Char × Option Partial :=
  match pending with
  | none => start byte
  | some p =>
    if p.low ≤ byte ∧ byte ≤ p.high then
      let bits := p.bits * 64 + (byte - 0x80)
      match p.more with
      | 0 => ([Char.ofNat bits], none)
      | more + 1 => ([], some ⟨bits, more, 0x80, 0xBF⟩)
    else (replacement :: (start byte).1, (start byte).2)

/-- Read all bytes. -/
def run (pending : Option Partial) : List Nat → List Char × Option Partial
  | [] => ([], pending)
  | byte :: bytes =>
    let (chars, next) := step pending byte
    ((chars ++ (run next bytes).1), (run next bytes).2)

/-- What an open sequence becomes at the end of the input. -/
def flush : Option Partial → List Char
  | none => []
  | some _ => [replacement]

def decode (bytes : List Nat) : List Char := (run none bytes).1 ++ flush (run none bytes).2

/-- The part of the text of a byte sequence that no further bytes change. -/
def settled (bytes : List Nat) : List Char :=
  if (decode bytes).getLast? = some replacement then (decode bytes).dropLast else decode bytes

@[simp] theorem run_nil (pending : Option Partial) : run pending [] = ([], pending) := rfl

@[simp] theorem decode_nil : decode [] = [] := rfl

theorem run_append (pending : Option Partial) (bytes bytes' : List Nat) :
    run pending (bytes ++ bytes') =
      ((run pending bytes).1 ++ (run (run pending bytes).2 bytes').1,
        (run (run pending bytes).2 bytes').2) := by
  induction bytes generalizing pending with
  | nil => simp
  | cons byte bytes ih => simp [run, ih]

/-- The text of two byte sequences in a row, from the state after the first. -/
theorem decode_append (bytes bytes' : List Nat) :
    decode (bytes ++ bytes') = (run none bytes).1 ++
      ((run (run none bytes).2 bytes').1 ++ flush (run (run none bytes).2 bytes').2) := by
  simp [decode, run_append]

/-- After a byte sequence that ends between characters, the rest decodes on its own. -/
theorem decode_append_of_closed {bytes : List Nat} (closed : (run none bytes).2 = none)
    (bytes' : List Nat) : decode (bytes ++ bytes') = decode bytes ++ decode bytes' := by
  rw [decode_append, closed]
  simp [decode, closed, flush]

/-- A text that does not end in the replacement character ends between characters. -/
theorem closed_of_getLast?_ne {bytes : List Nat}
    (clean : (decode bytes).getLast? ≠ some replacement) : (run none bytes).2 = none := by
  cases open_ : (run none bytes).2 with
  | none => rfl
  | some p => simp [decode, open_, flush] at clean

/-- An open sequence gives at least one character, whatever comes next. -/
theorem flush_of_open (p : Partial) (bytes : List Nat) :
    (run (some p) bytes).1 ++ flush (run (some p) bytes).2 ≠ [] := by
  induction bytes generalizing p with
  | nil => simp [flush]
  | cons byte bytes ih =>
    simp only [run, step]
    split_ifs with inside
    · cases p.more with
      | zero => simp
      | succ more => simpa using ih _
    · simp

theorem settled_isPrefix (bytes : List Nat) : settled bytes <+: decode bytes := by
  unfold settled
  split_ifs
  · exact List.dropLast_prefix _
  · exact List.prefix_rfl

theorem settled_eq_decode_iff (bytes : List Nat) :
    settled bytes = decode bytes ↔ (decode bytes).getLast? ≠ some replacement := by
  unfold settled
  split_ifs with unsettled
  · simp only [unsettled, ne_eq, not_true, iff_false]
    intro same
    have shorter := congrArg List.length same
    have present : decode bytes ≠ [] := by
      intro empty
      simp [empty] at unsettled
    have positive := List.length_pos_iff.mpr present
    rw [List.length_dropLast] at shorter
    omega
  · simp [unsettled]

theorem prefix_dropLast {short long : List Char} (sub : short <+: long)
    (shorter : short.length < long.length) : short <+: long.dropLast := by
  rw [List.dropLast_eq_take]
  exact List.prefix_take_iff.mpr ⟨sub, by omega⟩

theorem settled_append (bytes bytes' : List Nat) :
    settled bytes <+: settled (bytes ++ bytes') := by
  -- Every text with a last replacement character is strictly longer than what is settled.
  suffices h : settled bytes <+: decode (bytes ++ bytes') ∧
      ((decode (bytes ++ bytes')).getLast? = some replacement →
        (settled bytes).length < (decode (bytes ++ bytes')).length) by
    unfold settled at h ⊢
    split_ifs at h ⊢ with hfirst hsecond
    · exact prefix_dropLast h.1 (h.2 hsecond)
    · exact h.1
    · exact prefix_dropLast h.1 (h.2 (by assumption))
    · exact h.1
  cases open_ : (run none bytes).2 with
  | some p =>
    have whole : settled bytes = (run none bytes).1 := by
      simp [settled, decode, open_, flush]
    have more := List.length_pos_iff.mpr (flush_of_open p bytes')
    rw [whole, decode_append, open_]
    refine ⟨List.prefix_append _ _, fun _ => ?_⟩
    rw [List.length_append]
    omega
  | none =>
    rw [decode_append_of_closed open_]
    refine ⟨(settled_isPrefix bytes).trans (List.prefix_append _ _), fun ends => ?_⟩
    have inside := (settled_isPrefix bytes).length_le
    rw [List.length_append]
    by_cases silent : decode bytes' = []
    · rw [silent, List.append_nil] at ends
      have shorter : (settled bytes).length ≠ (decode bytes).length := fun same =>
        (settled_eq_decode_iff bytes).mp ((settled_isPrefix bytes).eq_of_length same) ends
      rw [silent, List.length_nil]
      omega
    · have positive := List.length_pos_iff.mpr silent
      omega

example : decode [0x61, 0xE6, 0xB1, 0x89, 0x20, 0xE6, 0xB1] = ['a', '汉', ' ', '\uFFFD'] := by decide

end FreeSwarm.Foundation.Utf8
