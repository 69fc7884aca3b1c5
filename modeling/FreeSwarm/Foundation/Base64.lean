import Mathlib.Data.List.Basic

/-!
# Base64 texts

The encoding with the alphabet for addresses, without the padding at the end, and the decoder that
accepts more than it: characters of neither alphabet are skipped, bits that fill the last character are
dropped, and what follows a padded group is not read. Decoding an encoding gives the bytes back, but a
text that decodes to some bytes need not be their encoding.
-/

namespace FreeSwarm.Foundation.Base64

def alphabet : List Char :=
  "ABCDEFGHIJKLMNOPQRSTUVWXYZabcdefghijklmnopqrstuvwxyz0123456789-_".toList

def digit (value : Nat) : Char := alphabet.getD value 'A'

/-- The value of a character, with those of the other alphabet. -/
def sextet (c : Char) : Option Nat :=
  if c = '+' then some 62 else if c = '/' then some 63 else alphabet.findIdx? fun d => d = c

/-- The text of some bytes, without padding. -/
def encode : List UInt8 → List Char
  | a :: b :: c :: rest =>
    digit (a.toNat / 4) :: digit (a.toNat % 4 * 16 + b.toNat / 16) ::
      digit (b.toNat % 16 * 4 + c.toNat / 64) :: digit (c.toNat % 64) :: encode rest
  | [a, b] => [digit (a.toNat / 4), digit (a.toNat % 4 * 16 + b.toNat / 16), digit (b.toNat % 16 * 4)]
  | [a] => [digit (a.toNat / 4), digit (a.toNat % 4 * 16)]
  | [] => []

/-- The bytes of a text, from a position in a group of four, the bits that are left, and the number of
padding characters: nothing when the text ends in the middle of a group. -/
def decodeFrom (pos left pads : Nat) : List Char → Option (List UInt8)
  | [] => if pos = 0 then some [] else none
  | c :: rest =>
    if c = '=' then
      if 2 ≤ pos then
        if 4 ≤ pos + (pads + 1) then some [] else decodeFrom pos left (pads + 1) rest
      else decodeFrom pos left pads rest
    else
      match sextet c with
      | none => decodeFrom pos left pads rest
      | some value =>
        if pos = 0 then decodeFrom 1 value 0 rest
        else if pos = 1 then
          (decodeFrom 2 (value % 16) 0 rest).map (UInt8.ofNat (left * 4 + value / 16) :: ·)
        else if pos = 2 then
          (decodeFrom 3 (value % 4) 0 rest).map (UInt8.ofNat (left * 16 + value / 4) :: ·)
        else (decodeFrom 0 0 0 rest).map (UInt8.ofNat (left * 64 + value) :: ·)

def decode (text : List Char) : Option (List UInt8) :=
  if text.all fun c => c.toNat < 128 then decodeFrom 0 0 0 text else none

def decodePadded (text : List Char) : Option (List UInt8) :=
  decode (text ++ List.replicate ((4 - text.length % 4) % 4) '=')

/-! ## The alphabet -/

theorem digit_spec : ∀ value < 64, sextet (digit value) = some value ∧ digit value ≠ '=' ∧
    digit value ≠ '.' ∧ (digit value).toNat < 128 := by
  have text : alphabet = _ := String.toList_ofList
  simp only [digit, sextet, text]
  with_unfolding_all decide

theorem decodeFrom_digit {value : Nat} (small : value < 64) (pos left pads : Nat)
    (rest : List Char) : decodeFrom pos left pads (digit value :: rest) =
      if pos = 0 then decodeFrom 1 value 0 rest
      else if pos = 1 then
        (decodeFrom 2 (value % 16) 0 rest).map (UInt8.ofNat (left * 4 + value / 16) :: ·)
      else if pos = 2 then
        (decodeFrom 3 (value % 4) 0 rest).map (UInt8.ofNat (left * 16 + value / 4) :: ·)
      else (decodeFrom 0 0 0 rest).map (UInt8.ofNat (left * 64 + value) :: ·) := by
  obtain ⟨found, filled, -⟩ := digit_spec value small
  rw [decodeFrom, if_neg filled]
  simp only [found]

theorem of_mem_encode {bytes : List UInt8} {c : Char} (mem : c ∈ encode bytes) :
    c ≠ '.' ∧ c.toNat < 128 := by
  have plain : ∀ value < 64, digit value ≠ '.' ∧ (digit value).toNat < 128 :=
    fun value small => (digit_spec value small).2.2
  induction bytes using encode.induct with
  | case1 a b c' rest ih =>
    have sa := a.toNat_lt
    have sb := b.toNat_lt
    have sc := c'.toNat_lt
    simp only [encode, List.mem_cons] at mem
    obtain rfl | rfl | rfl | rfl | mem := mem
    · exact plain _ (by omega)
    · exact plain _ (by omega)
    · exact plain _ (by omega)
    · exact plain _ (by omega)
    · exact ih mem
  | case2 a b =>
    have sa := a.toNat_lt
    have sb := b.toNat_lt
    simp only [encode, List.mem_cons, List.not_mem_nil, or_false] at mem
    obtain rfl | rfl | rfl := mem
    · exact plain _ (by omega)
    · exact plain _ (by omega)
    · exact plain _ (by omega)
  | case3 a =>
    have sa := a.toNat_lt
    simp only [encode, List.mem_cons, List.not_mem_nil, or_false] at mem
    obtain rfl | rfl := mem
    · exact plain _ (by omega)
    · exact plain _ (by omega)
  | case4 => cases mem

/-! ## Decoding an encoding -/

section

variable {value left pads : Nat} {rest : List Char}

theorem decodeFrom_zero (small : value < 64) :
    decodeFrom 0 left pads (digit value :: rest) = decodeFrom 1 value 0 rest :=
  decodeFrom_digit small 0 left pads rest

theorem decodeFrom_one (small : value < 64) : decodeFrom 1 left pads (digit value :: rest) =
    (decodeFrom 2 (value % 16) 0 rest).map (UInt8.ofNat (left * 4 + value / 16) :: ·) :=
  decodeFrom_digit small 1 left pads rest

theorem decodeFrom_two (small : value < 64) : decodeFrom 2 left pads (digit value :: rest) =
    (decodeFrom 3 (value % 4) 0 rest).map (UInt8.ofNat (left * 16 + value / 4) :: ·) :=
  decodeFrom_digit small 2 left pads rest

theorem decodeFrom_three (small : value < 64) : decodeFrom 3 left pads (digit value :: rest) =
    (decodeFrom 0 0 0 rest).map (UInt8.ofNat (left * 64 + value) :: ·) :=
  decodeFrom_digit small 3 left pads rest

end

theorem ofNat_eq (byte : UInt8) {value : Nat} (same : value = byte.toNat) :
    UInt8.ofNat value = byte := by
  rw [same, UInt8.ofNat_toNat]

def padding (bytes : List UInt8) : List Char := List.replicate ((3 - bytes.length % 3) % 3) '='

variable (bytes : List UInt8)

theorem padding_eq :
    List.replicate ((4 - (encode bytes).length % 4) % 4) '=' = padding bytes := by
  rw [padding]
  congr 1
  induction bytes using encode.induct with
  | case1 a b c rest ih =>
    rw [encode]
    simp only [List.length_cons] at ih ⊢
    omega
  | _ => simp [encode]

theorem decodeFrom_encode :
    decodeFrom 0 0 0 (encode bytes ++ padding bytes) = some bytes := by
  induction bytes using encode.induct with
  | case1 a b c rest ih =>
    have sa := a.toNat_lt
    have sb := b.toNat_lt
    have sc := c.toNat_lt
    have same : padding (a :: b :: c :: rest) = padding rest := by
      rw [padding, padding]
      congr 1
      simp only [List.length_cons]
      omega
    rw [same, encode]
    simp only [List.cons_append]
    rw [decodeFrom_zero (by omega), decodeFrom_one (by omega), decodeFrom_two (by omega),
      decodeFrom_three (by omega), ih]
    simp only [Option.map_some]
    rw [ofNat_eq a (by omega), ofNat_eq b (by omega),
      ofNat_eq c (by omega)]
  | case2 a b =>
    have sa := a.toNat_lt
    have sb := b.toNat_lt
    rw [encode, padding]
    simp only [List.cons_append, List.nil_append]
    rw [decodeFrom_zero (by omega), decodeFrom_one (by omega), decodeFrom_two (by omega)]
    have ends : decodeFrom 3 ((b.toNat % 16 * 4) % 4) 0
        (List.replicate ((3 - [a, b].length % 3) % 3) '=') = some [] := rfl
    rw [ends]
    simp only [Option.map_some]
    rw [ofNat_eq a (by omega), ofNat_eq b (by omega)]
  | case3 a =>
    have sa := a.toNat_lt
    rw [encode, padding]
    simp only [List.cons_append, List.nil_append]
    rw [decodeFrom_zero (by omega), decodeFrom_one (by omega)]
    have ends : decodeFrom 2 ((a.toNat % 4 * 16) % 16) 0
        (List.replicate ((3 - [a].length % 3) % 3) '=') = some [] := rfl
    rw [ends]
    simp only [Option.map_some]
    rw [ofNat_eq a (by omega)]
  | case4 => rfl

theorem decodePadded_encode : decodePadded (encode bytes) = some bytes := by
  have plain : ((encode bytes ++ padding bytes).all fun c => c.toNat < 128) = true := by
    rw [List.all_eq_true]
    intro c mem
    cases List.mem_append.mp mem with
    | inl here => exact decide_eq_true (of_mem_encode here).2
    | inr there =>
      rw [List.eq_of_mem_replicate there]
      rfl
  rw [decodePadded, padding_eq, decode, if_pos plain, decodeFrom_encode]

end FreeSwarm.Foundation.Base64
