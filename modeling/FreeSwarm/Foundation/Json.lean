import FreeSwarm.Foundation.Dict

/-!
# JSON texts

Values, the text `dumps` writes for one (characters outside ASCII as they are, a blank behind every
comma and colon), and `loads`, which reads a text. A number is kept as the literal it is written
with. An object that has a key twice keeps the place of the first and the value of the last, as a
dictionary filled in that order does.
-/

namespace FreeSwarm.Foundation

/-! ## Values -/

/-- A character of a number or of a name such as `true`. -/
def isWordChar (c : Char) : Bool := c.isAlphanum || c = '+' || c = '-' || c = '.'

/-- What may follow the digits before the exponent. -/
def isExponent : List Char → Bool
  | [] => true
  | c :: rest =>
    (c = 'e' || c = 'E') &&
      match rest with
      | [] => false
      | sign :: digits =>
        if sign = '+' || sign = '-' then !digits.isEmpty && digits.all Char.isDigit
        else (sign :: digits).all Char.isDigit

/-- What may follow the digits before the point. -/
def isFraction : List Char → Bool
  | '.' :: rest => (rest.head?.any Char.isDigit) && isExponent (rest.dropWhile Char.isDigit)
  | rest => isExponent rest

/-- A literal of a number without its sign. -/
def isUnsigned (literal : List Char) : Bool :=
  let digits := literal.takeWhile Char.isDigit
  (digits = ['0'] || digits.head?.any fun c => c ≠ '0') &&
    isFraction (literal.dropWhile Char.isDigit)

def isNumber (literal : List Char) : Bool :=
  literal.all isWordChar &&
    (literal = "NaN".toList || literal = "Infinity".toList || literal = "-Infinity".toList ||
      match literal with
      | '-' :: rest => isUnsigned rest
      | literal => isUnsigned literal)

structure JsonNumber where
  literal : List Char
  valid : isNumber literal = true
  deriving DecidableEq

inductive Json where
  | null
  /-- `true` or `false`. -/
  | bool (value : Bool)
  | num (value : JsonNumber)
  | str (value : List Char)
  | arr (items : List Json)
  | obj (members : List (List Char × Json))

/-! ## Writing -/

def hexDigit (n : Nat) : Char := "0123456789abcdef".toList.getD n '0'

def escapeChar (c : Char) : List Char :=
  if c = '"' then ['\\', '"']
  else if c = '\\' then ['\\', '\\']
  else if c = '\n' then ['\\', 'n']
  else if c = '\r' then ['\\', 'r']
  else if c = '\t' then ['\\', 't']
  else if c.toNat = 12 then ['\\', 'f']
  else if c.toNat = 8 then ['\\', 'b']
  else if c.toNat < 32 then ['\\', 'u', '0', '0', hexDigit (c.toNat / 16), hexDigit (c.toNat % 16)]
  else [c]

def escape (text : List Char) : List Char := text.flatMap escapeChar

@[simp] theorem escape_append (text text' : List Char) :
    escape (text ++ text') = escape text ++ escape text' := List.flatMap_append

theorem escape_cons (c : Char) (text : List Char) : escape (c :: text) = escapeChar c ++ escape text :=
  List.flatMap_cons

def quote (text : List Char) : List Char := '"' :: (escape text ++ ['"'])

namespace Json

mutual

/-- The text of a value. -/
def dumps : Json → List Char
  | null => "null".toList
  | bool value => if value then "true".toList else "false".toList
  | num value => value.literal
  | str value => quote value
  | arr items => '[' :: (dumpsItems [] items ++ [']'])
  | obj members => '\x7b' :: (dumpsMembers [] members ++ ['\x7d'])

/-- The texts of values, each behind a separator, the first behind another. -/
def dumpsItems : List Char → List Json → List Char
  | _, [] => []
  | lead, v :: rest => lead ++ (v.dumps ++ dumpsItems [',', ' '] rest)

/-- The texts of the pairs of an object. -/
def dumpsMembers : List Char → List (List Char × Json) → List Char
  | _, [] => []
  | lead, (key, v) :: rest =>
    lead ++ (quote key ++ (':' :: ' ' :: (v.dumps ++ dumpsMembers [',', ' '] rest)))

end

mutual

/-- The value with the pairs of every object in it put into a dictionary. -/
def norm : Json → Json
  | arr items => arr (normItems items)
  | obj members => obj (dictOf (normMembers members))
  | v => v

/-- The values of an array, each so. -/
def normItems : List Json → List Json
  | [] => []
  | v :: rest => v.norm :: normItems rest

/-- The values of an object, each so. -/
def normMembers : List (List Char × Json) → List (List Char × Json)
  | [] => []
  | (key, v) :: rest => (key, v.norm) :: normMembers rest

end

theorem normMembers_eq_map (members : List (List Char × Json)) :
    normMembers members = members.map (Prod.map id norm) := by
  induction members with
  | nil => rfl
  | cons pair rest ih =>
    obtain ⟨key, v⟩ := pair
    rw [normMembers, ih, List.map_cons]
    rfl

end Json

/-! ## Reading -/

def hexValue (c : Char) : Option Nat :=
  if c.isDigit then some (c.toNat - 48)
  else if 'a' ≤ c ∧ c ≤ 'f' then some (c.toNat - 87)
  else if 'A' ≤ c ∧ c ≤ 'F' then some (c.toNat - 55)
  else none

/-- The value of four hexadecimal digits, and what is left behind them. -/
def readHex : List Char → Option (Nat × List Char)
  | a :: b :: c :: d :: rest => do
    let a ← hexValue a
    let b ← hexValue b
    let c ← hexValue c
    let d ← hexValue d
    some (((a * 16 + b) * 16 + c) * 16 + d, rest)
  | _ => none

/-- The character behind `\\u`. A pair of surrogates is one character; a lone surrogate is none, and a
text with one is not read. -/
def readCode (text : List Char) : Option (Char × List Char) := do
  let (high, rest) ← readHex text
  if 0xD800 ≤ high ∧ high < 0xDC00 then
    match rest with
    | '\\' :: 'u' :: rest =>
      let (low, rest) ← readHex rest
      if 0xDC00 ≤ low ∧ low < 0xE000 then
        some (Char.ofNat (0x10000 + (high - 0xD800) * 0x400 + (low - 0xDC00)), rest)
      else none
    | _ => none
  else if 0xDC00 ≤ high ∧ high < 0xE000 then none
  else some (Char.ofNat high, rest)

def readEscape : List Char → Option (Char × List Char)
  | [] => none
  | c :: rest =>
    if c = 'u' then readCode rest
    else if c = '"' ∨ c = '\\' ∨ c = '/' then some (c, rest)
    else if c = 'n' then some ('\n', rest)
    else if c = 'r' then some ('\r', rest)
    else if c = 't' then some ('\t', rest)
    else if c = 'f' then some (Char.ofNat 12, rest)
    else if c = 'b' then some (Char.ofNat 8, rest)
    else none

/-- The text of a string behind its opening quote, and what is left behind the closing one. -/
def readString : Nat → List Char → Option (List Char × List Char)
  | 0, _ => none
  | _, [] => none
  | fuel + 1, c :: rest =>
    if c = '"' then some ([], rest)
    else if c = '\\' then do
      let (c, rest) ← readEscape rest
      let (text, rest) ← readString fuel rest
      some (c :: text, rest)
    else if c.toNat < 32 then none
    else do
      let (text, rest) ← readString fuel rest
      some (c :: text, rest)

/-- Whitespace between the parts of a text. -/
def isJsonSpace (c : Char) : Bool := c = ' ' || c = '\t' || c = '\n' || c = '\r'

/-- The text without the whitespace before it. -/
def skipSpace (text : List Char) : List Char := text.dropWhile isJsonSpace

def wordValue (word : List Char) : Option Json :=
  if word = "null".toList then some .null
  else if word = "true".toList then some (.bool true)
  else if word = "false".toList then some (.bool false)
  else if valid : isNumber word = true then some (.num ⟨word, valid⟩)
  else none

namespace Json

mutual

/-- The value at the start of a text, and what is left behind it. A word is read to its end: what
may follow a value is no part of a word. -/
def readValue : Nat → List Char → Option (Json × List Char)
  | 0, _ => none
  | _, [] => none
  | fuel + 1, c :: rest =>
    if c = '"' then (readString (fuel + 1) rest).map fun (text, rest) => (str text, rest)
    else if c = '[' then
      match skipSpace rest with
      | ']' :: rest => some (arr [], rest)
      | rest => (readItems fuel rest).map fun (items, rest) => (arr items, rest)
    else if c = '\x7b' then
      match skipSpace rest with
      | '\x7d' :: rest => some (obj [], rest)
      | rest => (readMembers fuel rest).map fun (members, rest) => (obj (dictOf members), rest)
    else
      (wordValue ((c :: rest).takeWhile isWordChar)).map fun v =>
        (v, (c :: rest).dropWhile isWordChar)

/-- The values up to the end of an array. -/
def readItems : Nat → List Char → Option (List Json × List Char)
  | 0, _ => none
  | fuel + 1, text => do
    let (v, rest) ← readValue fuel text
    match skipSpace rest with
    | ',' :: rest =>
      let (items, rest) ← readItems fuel (skipSpace rest)
      some (v :: items, rest)
    | ']' :: rest => some ([v], rest)
    | _ => none

/-- The pairs up to the end of an object. -/
def readMembers : Nat → List Char → Option (List (List Char × Json) × List Char)
  | 0, _ => none
  | fuel + 1, text => do
    match text with
    | '"' :: rest =>
      let (key, rest) ← readString (fuel + 1) rest
      match skipSpace rest with
      | ':' :: rest =>
        let (v, rest) ← readValue fuel (skipSpace rest)
        match skipSpace rest with
        | ',' :: rest =>
          let (members, rest) ← readMembers fuel (skipSpace rest)
          some ((key, v) :: members, rest)
        | '\x7d' :: rest => some ([(key, v)], rest)
        | _ => none
      | _ => none
    | _ => none

end

def loads (text : List Char) : Option Json :=
  match readValue (2 * text.length + 1) (skipSpace text) with
  | some (v, rest) => if skipSpace rest = [] then some v else none
  | none => none

end Json

/-! ## What is written is read -/

theorem hexValue_hexDigit : ∀ n < 16, hexValue (hexDigit n) = some n := by decide

theorem readString_escapeChar (c : Char) (fuel : Nat) (rest : List Char) :
    readString (fuel + 1) (escapeChar c ++ rest) =
      (readString fuel rest).map fun (text, rest) => (c :: text, rest) := by
  have bound (out : Option (List Char × List Char)) :
      (do let (text, rest) ← out; some (c :: text, rest)) =
        out.map fun (text, rest) => (c :: text, rest) := by
    cases out <;> rfl
  rw [escapeChar]
  split_ifs with quoted slash newline return_ tab feed back control
  · subst quoted; exact bound _
  · subst slash; exact bound _
  · subst newline; exact bound _
  · subst return_; exact bound _
  · subst tab; exact bound _
  · obtain rfl : c = Char.ofNat 12 := by rw [← feed, Char.ofNat_toNat]
    exact bound _
  · obtain rfl : c = Char.ofNat 8 := by rw [← back, Char.ofNat_toNat]
    exact bound _
  · have code : readCode
        ('0' :: '0' :: hexDigit (c.toNat / 16) :: hexDigit (c.toNat % 16) :: rest) =
          some (c, rest) := by
      have zero : hexValue '0' = some 0 := rfl
      have value : ((0 * 16 + 0) * 16 + c.toNat / 16) * 16 + c.toNat % 16 = c.toNat := by omega
      simp only [readCode, readHex, zero, hexValue_hexDigit _ (show c.toNat / 16 < 16 by omega),
        hexValue_hexDigit _ (show c.toNat % 16 < 16 by omega), Option.bind_eq_bind,
        Option.bind_some, value]
      rw [if_neg (by omega), if_neg (by omega), Char.ofNat_toNat]
    have escaped : readEscape
        ('u' :: '0' :: '0' :: hexDigit (c.toNat / 16) :: hexDigit (c.toNat % 16) :: rest) =
          some (c, rest) := code
    simp only [List.cons_append, List.nil_append, readString, escaped, Option.bind_eq_bind,
      Option.bind_some]
    exact bound _
  · simp only [List.cons_append, List.nil_append, readString, if_neg quoted, if_neg slash,
      if_neg control]
    exact bound _

theorem readString_escape (text rest : List Char) {fuel : Nat} (enough : text.length < fuel) :
    readString fuel (escape text ++ '"' :: rest) = some (text, rest) := by
  induction text generalizing fuel with
  | nil =>
    obtain ⟨fuel, rfl⟩ : ∃ n, fuel = n + 1 := ⟨fuel - 1, by omega⟩
    rfl
  | cons c text ih =>
    rw [List.length_cons] at enough
    obtain ⟨fuel, rfl⟩ : ∃ n, fuel = n + 1 := ⟨fuel - 1, by omega⟩
    rw [escape_cons, List.append_assoc, readString_escapeChar, ih (by omega)]
    rfl

theorem length_le_escape (text : List Char) : text.length ≤ (escape text).length := by
  induction text with
  | nil => exact le_rfl
  | cons c text ih =>
    have one : 1 ≤ (escapeChar c).length := by
      rw [escapeChar]
      split_ifs <;> simp
    rw [escape_cons, List.length_append, List.length_cons]
    omega

/-- What may follow a value: its first character is no part of a word. -/
def StopsWord (rest : List Char) : Prop := ∀ c ∈ rest.head?, isWordChar c = false

theorem takeWhile_word {word rest : List Char} (chars : word.all isWordChar = true)
    (stops : StopsWord rest) : (word ++ rest).takeWhile isWordChar = word := by
  rw [List.takeWhile_append_of_pos fun c mem => List.all_eq_true.mp chars c mem]
  cases rest with
  | nil => simp
  | cons c rest =>
    rw [List.takeWhile_cons_of_neg (by simp [stops c rfl]), List.append_nil]

theorem dropWhile_word {word rest : List Char} (chars : word.all isWordChar = true)
    (stops : StopsWord rest) : (word ++ rest).dropWhile isWordChar = rest := by
  rw [List.dropWhile_append_of_pos fun c mem => List.all_eq_true.mp chars c mem]
  cases rest with
  | nil => rfl
  | cons c rest => rw [List.dropWhile_cons_of_neg (by simp [stops c rfl])]

theorem skipSpace_cons {c : Char} (solid : isJsonSpace c = false) (rest : List Char) :
    skipSpace (c :: rest) = c :: rest := List.dropWhile_cons_of_neg (by simp [solid])

theorem JsonNumber.chars (n : JsonNumber) : n.literal.all isWordChar = true := by
  have valid := n.valid
  unfold isNumber at valid
  exact (Bool.and_eq_true_iff.mp valid).1

theorem wordValue_literal (n : JsonNumber) : wordValue n.literal = some (.num n) := by
  obtain ⟨literal, valid⟩ := n
  have other {name : List Char} (no : isNumber name = false) : literal ≠ name := by
    rintro rfl
    exact absurd valid (by simp [no])
  rw [wordValue, if_neg (other rfl), if_neg (other rfl), if_neg (other rfl), dif_pos valid]

namespace Json

theorem readValue_word {word rest : List Char} {v : Json} (value : wordValue word = some v)
    (chars : word.all isWordChar = true) (stops : StopsWord rest) (fuel : Nat) :
    readValue (fuel + 1) (word ++ rest) = some (v, rest) := by
  cases word with
  | nil => exact absurd value (by simp [wordValue, isNumber, isUnsigned])
  | cons c word =>
    have first : isWordChar c = true := List.all_eq_true.mp chars c List.mem_cons_self
    have other {c' : Char} (no : isWordChar c' = false) : c ≠ c' := by
      rintro rfl
      exact absurd first (by simp [no])
    have taken := takeWhile_word chars stops
    have left := dropWhile_word chars stops
    rw [List.cons_append] at taken left ⊢
    rw [readValue, if_neg (other rfl), if_neg (other rfl), if_neg (other rfl), taken, left, value]
    rfl

/-- The first character of the text of a value: no space, and none that ends an array. -/
theorem dumps_head (v : Json) :
    ∃ c rest, v.dumps = c :: rest ∧ isJsonSpace c = false ∧ c ≠ ']' := by
  cases v with
  | null | str value | arr items | obj members => exact ⟨_, _, rfl, rfl, by decide⟩
  | bool value => cases value <;> exact ⟨_, _, rfl, rfl, by decide⟩
  | num value =>
    have chars := value.chars
    obtain ⟨literal, valid⟩ := value
    cases literal with
    | nil => exact absurd valid (by decide)
    | cons c rest =>
      have first : isWordChar c = true := List.all_eq_true.mp chars c List.mem_cons_self
      refine ⟨c, rest, rfl, ?_, ?_⟩
      · by_contra space
        rw [Bool.not_eq_false, isJsonSpace] at space
        simp only [Bool.or_eq_true, decide_eq_true_eq] at space
        rcases space with ((rfl | rfl) | rfl) | rfl <;> exact absurd first (by decide)
      · rintro rfl
        exact absurd first (by decide)

theorem skipSpace_dumps (v : Json) (rest : List Char) :
    skipSpace (v.dumps ++ rest) = v.dumps ++ rest := by
  obtain ⟨c, text, same, solid, -⟩ := v.dumps_head
  rw [same, List.cons_append, skipSpace_cons solid]

mutual

theorem readValue_dumps : ∀ (v : Json) (rest : List Char) (fuel : Nat), StopsWord rest →
    2 * v.dumps.length < fuel → readValue fuel (v.dumps ++ rest) = some (v.norm, rest)
  | _, _, 0, _, enough => absurd enough (Nat.not_lt_zero _)
  | null, rest, fuel + 1, stops, _ => readValue_word rfl rfl stops fuel
  | bool value, rest, fuel + 1, stops, _ => by
    cases value <;> exact readValue_word rfl rfl stops fuel
  | num value, rest, fuel + 1, stops, _ =>
    readValue_word (wordValue_literal value) value.chars stops fuel
  | str value, rest, fuel + 1, stops, enough => by
    have long := length_le_escape value
    simp only [dumps, quote, List.length_cons, List.length_append, List.length_nil] at enough
    have text : readString (fuel + 1) (escape value ++ '"' :: rest) = some (value, rest) :=
      readString_escape value rest (by omega)
    simp only [dumps, quote, List.cons_append, List.append_assoc, List.nil_append, readValue,
      if_true, text]
    rfl
  | arr [], rest, fuel + 1, _, _ => rfl
  | arr (v :: items), rest, fuel + 1, stops, enough => by
    simp only [dumps, dumpsItems, List.nil_append, List.length_cons, List.length_append,
      List.length_nil] at enough
    have read := readItems_dumps v items rest fuel (by omega)
    obtain ⟨c, text, same, solid, other⟩ := v.dumps_head
    have skip := v.skipSpace_dumps (dumpsItems [',', ' '] items ++ ']' :: rest)
    simp only [dumps, dumpsItems, List.nil_append, List.cons_append, List.append_assoc, readValue,
      skip]
    rw [if_neg (by decide), if_pos trivial]
    rw [same, List.cons_append] at read ⊢
    split
    · next head => exact absurd (List.cons.inj head).1 other
    · rw [read]
      rfl
  | obj [], rest, fuel + 1, _, _ => rfl
  | obj ((key, v) :: members), rest, fuel + 1, stops, enough => by
    simp only [dumps, dumpsMembers, List.nil_append, List.length_cons, List.length_append,
      List.length_nil] at enough
    have read := readMembers_dumps key v members rest fuel (by omega)
    simp only [dumps, dumpsMembers, List.nil_append, List.cons_append, List.append_assoc, readValue]
    rw [if_neg (by decide), if_neg (by decide), if_pos trivial]
    rw [quote, List.cons_append] at read ⊢
    rw [skipSpace_cons rfl]
    exact congrArg (Option.map fun found => (obj (dictOf found.1), found.2)) read

theorem readItems_dumps : ∀ (v : Json) (items : List Json) (rest : List Char) (fuel : Nat),
    2 * (v.dumps.length + (dumpsItems [',', ' '] items).length) + 1 < fuel →
      readItems fuel (v.dumps ++ (dumpsItems [',', ' '] items ++ ']' :: rest)) =
        some (v.norm :: normItems items, rest)
  | _, _, _, 0, enough => absurd enough (Nat.not_lt_zero _)
  | v, [], rest, fuel + 1, enough => by
    have read := readValue_dumps v (']' :: rest) fuel (by simp [StopsWord, isWordChar])
      (by simp only [dumpsItems] at enough; omega)
    simp only [dumpsItems, List.nil_append, readItems, read, Option.bind_eq_bind, Option.bind_some,
      skipSpace_cons (show isJsonSpace ']' = false from rfl), normItems]
  | v, v' :: items, rest, fuel + 1, enough => by
    simp only [dumpsItems, List.length_append, List.length_cons, List.length_nil] at enough
    have read := readValue_dumps v
      (',' :: ' ' :: (v'.dumps ++ (dumpsItems [',', ' '] items ++ ']' :: rest))) fuel
      (by simp [StopsWord, isWordChar]) (by omega)
    have later := readItems_dumps v' items rest fuel (by omega)
    have skip : skipSpace (' ' :: (v'.dumps ++ (dumpsItems [',', ' '] items ++ ']' :: rest))) =
        v'.dumps ++ (dumpsItems [',', ' '] items ++ ']' :: rest) := v'.skipSpace_dumps _
    simp only [dumpsItems, List.cons_append, List.nil_append, List.append_assoc, readItems, read,
      Option.bind_eq_bind, Option.bind_some, skipSpace_cons (show isJsonSpace ',' = false from rfl),
      skip, later, normItems]

theorem readMembers_dumps : ∀ (key : List Char) (v : Json) (members : List (List Char × Json))
    (rest : List Char) (fuel : Nat),
    2 * ((quote key).length + v.dumps.length + (dumpsMembers [',', ' '] members).length) + 1 <
      fuel →
      readMembers fuel (quote key ++
          (':' :: ' ' :: (v.dumps ++ (dumpsMembers [',', ' '] members ++ '\x7d' :: rest)))) =
        some ((key, v.norm) :: normMembers members, rest)
  | _, _, _, _, 0, enough => absurd enough (Nat.not_lt_zero _)
  | key, v, [], rest, fuel + 1, enough => by
    have long := length_le_escape key
    simp only [quote, List.length_cons, List.length_append, List.length_nil] at enough
    have name : readString (fuel + 1) (escape key ++ '"' :: (':' :: ' ' ::
        (v.dumps ++ '\x7d' :: rest))) = some (key, ':' :: ' ' :: (v.dumps ++ '\x7d' :: rest)) :=
      readString_escape key _ (by omega)
    have read := readValue_dumps v ('\x7d' :: rest) fuel (by simp [StopsWord, isWordChar])
      (by omega)
    have skip : skipSpace (' ' :: (v.dumps ++ '\x7d' :: rest)) = v.dumps ++ '\x7d' :: rest :=
      v.skipSpace_dumps _
    simp only [quote, dumpsMembers, List.cons_append, List.nil_append, List.append_assoc,
      readMembers, name, Option.bind_eq_bind, Option.bind_some,
      skipSpace_cons (show isJsonSpace ':' = false from rfl), skip, read,
      skipSpace_cons (show isJsonSpace '\x7d' = false from rfl), normMembers]
  | key, v, (key', v') :: members, rest, fuel + 1, enough => by
    have long := length_le_escape key
    simp only [quote, dumpsMembers, List.length_cons, List.length_append, List.length_nil]
      at enough
    have name : ∀ text, readString (fuel + 1) (escape key ++ '"' :: text) = some (key, text) :=
      fun text => readString_escape key text (by omega)
    have read : ∀ text, readValue fuel (v.dumps ++ ',' :: text) = some (v.norm, ',' :: text) :=
      fun text => readValue_dumps v _ fuel (by simp [StopsWord, isWordChar]) (by omega)
    have later := readMembers_dumps key' v' members rest fuel
      (by simp only [quote, List.length_cons, List.length_append, List.length_nil]; omega)
    have skip : ∀ text, skipSpace (' ' :: (v.dumps ++ text)) = v.dumps ++ text :=
      fun text => v.skipSpace_dumps text
    have skipKey : ∀ text, skipSpace (' ' :: '"' :: text) = '"' :: text := fun _ => rfl
    simp only [quote, List.cons_append, List.nil_append, List.append_assoc] at later
    simp only [quote, dumpsMembers, List.cons_append, List.nil_append, List.append_assoc,
      readMembers, name, Option.bind_eq_bind, Option.bind_some,
      skipSpace_cons (show isJsonSpace ':' = false from rfl), skip, read,
      skipSpace_cons (show isJsonSpace ',' = false from rfl), skipKey, later, normMembers]

end

/-- Reading what is written gives the value, with its objects as dictionaries. -/
theorem loads_dumps (v : Json) : loads v.dumps = some v.norm := by
  have read := readValue_dumps v [] (2 * v.dumps.length + 1) (by simp [StopsWord]) (by omega)
  have skip := v.skipSpace_dumps []
  rw [List.append_nil] at read skip
  rw [loads, skip, read]
  rfl

/-! ## Objects written without blanks -/

/-- The texts of the pairs of an object, with no blanks behind commas and colons. -/
def compactMembers : List Char → List (List Char × Json) → List Char
  | _, [] => []
  | lead, (key, v) :: rest =>
    lead ++ (quote key ++ (':' :: (v.dumps ++ compactMembers [','] rest)))

/-- The text of an object so. -/
def compact (members : List (List Char × Json)) : List Char :=
  '\x7b' :: (compactMembers [] members ++ ['\x7d'])

theorem readMembers_compact (key : List Char) (v : Json) (members : List (List Char × Json))
    (rest : List Char) (fuel : Nat)
    (enough : 2 * ((quote key).length + v.dumps.length + (compactMembers [','] members).length) + 1 <
      fuel) :
    readMembers fuel (quote key ++
        (':' :: (v.dumps ++ (compactMembers [','] members ++ '\x7d' :: rest)))) =
      some ((key, v.norm) :: members.map (Prod.map id norm), rest) := by
  induction members generalizing key v fuel with
  | nil =>
    obtain ⟨fuel, rfl⟩ : ∃ n, fuel = n + 1 := ⟨fuel - 1, by omega⟩
    have long := length_le_escape key
    simp only [quote, List.length_cons, List.length_append, List.length_nil] at enough
    have name : ∀ text, readString (fuel + 1) (escape key ++ '"' :: text) = some (key, text) :=
      fun text => readString_escape key text (by omega)
    have read := readValue_dumps v ('\x7d' :: rest) fuel (by simp [StopsWord, isWordChar])
      (by omega)
    simp only [quote, compactMembers, List.cons_append, List.nil_append, List.append_assoc,
      readMembers, name, Option.bind_eq_bind, Option.bind_some,
      skipSpace_cons (show isJsonSpace ':' = false from rfl), skipSpace_dumps, read,
      skipSpace_cons (show isJsonSpace '\x7d' = false from rfl), List.map_nil]
  | cons pair members ih =>
    obtain ⟨key', v'⟩ := pair
    obtain ⟨fuel, rfl⟩ : ∃ n, fuel = n + 1 := ⟨fuel - 1, by omega⟩
    have long := length_le_escape key
    simp only [quote, compactMembers, List.length_cons, List.length_append, List.length_nil]
      at enough
    have name : ∀ text, readString (fuel + 1) (escape key ++ '"' :: text) = some (key, text) :=
      fun text => readString_escape key text (by omega)
    have read : ∀ text, readValue fuel (v.dumps ++ ',' :: text) = some (v.norm, ',' :: text) :=
      fun text => readValue_dumps v _ fuel (by simp [StopsWord, isWordChar]) (by omega)
    have later := ih key' v' fuel
      (by simp only [quote, List.length_cons, List.length_append, List.length_nil]; omega)
    simp only [quote, List.cons_append, List.nil_append, List.append_assoc] at later
    simp only [quote, compactMembers, List.cons_append, List.nil_append, List.append_assoc,
      readMembers, name, Option.bind_eq_bind, Option.bind_some,
      skipSpace_cons (show isJsonSpace ':' = false from rfl), skipSpace_dumps, read,
      skipSpace_cons (show isJsonSpace ',' = false from rfl),
      skipSpace_cons (show isJsonSpace '"' = false from rfl), later]
    rfl

variable (members : List (List Char × Json))

theorem loads_compact :
    loads (compact members) = some (obj (dictOf (members.map (Prod.map id norm)))) := by
  cases members with
  | nil => rfl
  | cons pair members =>
    obtain ⟨key, v⟩ := pair
    have read := readMembers_compact key v members [] (2 * (compact ((key, v) :: members)).length)
      (by
        simp only [compact, compactMembers, List.nil_append, List.length_cons, List.length_append,
          List.length_nil]
        omega)
    have whole : readValue (2 * (compact ((key, v) :: members)).length + 1)
        (compact ((key, v) :: members)) =
          some (obj (dictOf (((key, v) :: members).map (Prod.map id norm))), []) := by
      simp only [compact, compactMembers, List.nil_append, List.append_assoc, List.cons_append]
        at read ⊢
      rw [readValue, if_neg (by decide), if_neg (by decide), if_pos rfl]
      rw [quote, List.cons_append] at read ⊢
      rw [skipSpace_cons rfl]
      exact congrArg (Option.map fun found => (obj (dictOf found.1), found.2)) read
    have start : skipSpace (compact ((key, v) :: members)) = compact ((key, v) :: members) := rfl
    rw [loads, start, whole]
    rfl

/-- The pairs in their order and the dictionary of them are read as the same object. -/
theorem loads_compact_eq :
    loads (compact members) = loads (dumps (obj (dictOf members))) := by
  rw [loads_compact, loads_dumps, norm, normMembers_eq_map, map_dictOf,
    dictOf_of_nodup (nodup_dictOf _)]

end Json

end FreeSwarm.Foundation
