import FreeSwarm.Foundation.Pattern
import FreeSwarm.Library.ImportText
import Mathlib.Data.Char
import Mathlib.Data.List.Dedup
import Mathlib.Data.List.Lex
import Mathlib.Data.List.Sort

/-!
# Imports that are read by a pattern

`imported_modules` reads the names of the modules that a text imports by one regular expression. It reads the first
name of `import lib.a`, the name of `from lib.a import`, and the names of `from lib import` that stand alone between
two commas, up to the end of the line or in parentheses. `Told` is when a name that an import statement has is read
so, whatever stands around the statement, if only the search comes to it.
-/

namespace FreeSwarm.Library

open FreeSwarm.Foundation Pattern

/-- `\w`. -/
def isWord (u : Unicode) (c : Char) : Bool := isAscii c || (128 ≤ c.toNat && u.word c)

/-- `[^)]`. -/
def notClosing (c : Char) : Bool := c ≠ ')'

/-- `[^\n(#]`. -/
def notStop (c : Char) : Bool := c ≠ '\n' && c ≠ '(' && c ≠ '#'

/-- `\s+`. -/
def blanks : Pattern := many 1 isSpace

/-- `from\s+lib\s+import`, and what follows. -/
def fromLibImport (rest : Pattern) : Pattern :=
  seq (text fromWord) (seq blanks (seq (text libWord) (seq blanks (seq (text importWord) rest))))

/-- `lib\.`. -/
def libDot : Text := ['l', 'i', 'b', '.']

def IMPORT_RE (u : Unicode) : Pattern :=
  alt (fromLibImport (seq blanks (seq (text ['(']) (seq (group 1 (many 0 notClosing)) (text [')'])))))
    (alt (fromLibImport (seq blanks (group 2 (many 1 notStop))))
      (alt (seq (text fromWord) (seq blanks (seq (text libDot) (seq (group 3 (many 1 (isWord u)))
          (seq blanks (text importWord))))))
        (seq (text importWord) (seq blanks (seq (text libDot) (group 4 (many 1 (isWord u))))))))

def startsName (c : Char) : Bool := isLower c || c = '_'

/-- `NAME_RE`, as far as it goes without a newline at the end. -/
def isName : Text → Bool
  | [] => false
  | c :: t => startsName c && (t.length ≤ 47 && t.all fun c => startsName c || isDigit c)

/-- `NAME_RE.match`. Its end also matches before a newline. -/
def nameRe (t : Text) : Bool := isName t || (t.getLast? = some '\n' && isName t.dropLast)

/-- ` as `. -/
def asWord : Text := [' ', 'a', 's', ' ']

/-- `clause.strip().split(" as ")[0].strip()`. -/
def nameOf (clause : Text) : Text := strip (before asWord (strip clause))

def moduleNames (found : Groups) : List Text :=
  let clauses := match found.lookup 1 with
    | some (c :: t) => c :: t
    | _ => (found.lookup 2).getD []
  ((clauses.splitOn ',').map nameOf).filter nameRe ++
    ([found.lookup 3, found.lookup 4].reduceOption).filter (· ≠ [])

def importedModules (u : Unicode) (code : Text) : List Text :=
  ((((IMPORT_RE u).finditer code).flatMap moduleNames).dedup).insertionSort (· ≤ ·)

theorem mem_importedModules {u : Unicode} {code name : Text} :
    name ∈ importedModules u code ↔ ∃ found ∈ (IMPORT_RE u).finditer code, name ∈ moduleNames found := by
  rw [importedModules, List.mem_insertionSort, List.mem_dedup, List.mem_flatMap]

/-! ## Characters -/

theorem isSpace_of_isIdent {c : Char} (is_ : isIdent c = true) : isSpace c = false := by
  rw [isIdent, Bool.or_eq_true, Bool.and_eq_true] at is_
  rcases is_ with is_ | is_
  · by_cases under : c = '_'
    · rw [under]
      rfl
    · simp only [isAscii, isLower, isDigit, under, Bool.or_eq_true, Bool.and_eq_true, decide_eq_true_eq, decide_false,
        Bool.or_false] at is_
      simp only [isSpace, Bool.or_eq_false_iff, Bool.and_eq_false_iff, decide_eq_false_iff_not]
      omega
  · simpa using is_.2

theorem ne_of_isIdent {c d : Char} (is_ : isIdent c = true) (not_ : isIdent d = false) : c ≠ d :=
  fun same => absurd (same ▸ is_) (by simp [not_])

theorem isAscii_of_isName {name : Text} (is_ : isName name = true) :
    name ≠ [] ∧ ∀ c ∈ name, isAscii c = true := by
  have starts : ∀ c, startsName c = true → isAscii c = true := by
    intro c is_
    rw [startsName, Bool.or_eq_true] at is_
    rcases is_ with lower | under
    · simp [isAscii, lower]
    · simp [isAscii, of_decide_eq_true under]
  cases name with
  | nil => exact absurd is_ (by simp [isName])
  | cons c t =>
    rw [isName, Bool.and_eq_true, Bool.and_eq_true, List.all_eq_true] at is_
    refine ⟨List.cons_ne_nil _ _, fun d mem => ?_⟩
    rcases List.mem_cons.mp mem with rfl | mem
    · exact starts _ is_.1
    · rcases (Bool.or_eq_true _ _).mp (is_.2.2 d mem) with is_ | digit
      · exact starts d is_
      · simp [isAscii, digit]

theorem isWord_of_isName {u : Unicode} {name : Text} (is_ : isName name = true) : ∀ c ∈ name, isWord u c = true := by
  intro c mem
  rw [isWord, (isAscii_of_isName is_).2 c mem, Bool.true_or]

/-! ## A name in a clause -/

theorem strip_name {name : Text} (solid : ∀ c ∈ name, isSpace c = false) : strip name = name := by
  have front : lstrip name = name := by
    cases name with
    | nil => rfl
    | cons c t => exact lstrip_cons (solid c List.mem_cons_self) t
  have last : ∀ c ∈ name.getLast?, isSpace c = false := fun c mem => solid c (List.mem_of_mem_getLast? mem)
  have back := rstrip_append last []
  rw [List.append_nil] at back
  rw [strip, front, back]
  simp [rstrip]

theorem nameOf_plain {front name back : Text} (blank : Blank front) (solid : ∀ c ∈ name, isSpace c = false)
    (blank' : Blank back) : nameOf (front ++ (name ++ back)) = name := by
  have none_ : before asWord name = name := by
    rw [before, findSub_eq_none_iff.mpr]
    intro occurs
    exact absurd (solid ' ' (occurs.subset (by simp [asWord]))) (by decide)
  rw [nameOf, strip_append_of_blank blank, strip_of_append_blank blank', strip_name solid, none_, strip_name solid]

/-- There is no ` as ` in a name and the whitespace behind it. -/
theorem clearBelow_asWord {name space : Text} (solid : ∀ c ∈ name, isSpace c = false) (blank : Blank space)
    (rest : Text) : ClearBelow asWord (name ++ space).length (name ++ (space ++ (asWord ++ rest))) := by
  have clear : ClearBelow asWord space.length (space ++ (asWord ++ rest)) := by
    clear solid
    induction space with
    | nil => exact fun d below => absurd below (Nat.not_lt_zero d)
    | cons c space ih =>
      intro d below occurs
      cases d with
      | zero =>
        have next := (List.cons_prefix_cons.mp occurs).2
        cases space with
        | nil => exact absurd (List.cons_prefix_cons.mp next).1 (by decide)
        | cons c' space =>
          have is_ := (List.cons_prefix_cons.mp next).1
          exact absurd (blank c' (by simp)) (by simp [← is_, isSpace])
      | succ d => exact ih (fun c' mem => blank c' (List.mem_cons_of_mem _ mem)) d (Nat.lt_of_succ_lt_succ below) occurs
  rw [List.length_append]
  refine ClearBelow.append_left (fun d below occurs => ?_) clear
  rw [List.drop_append_of_le_length below.le, List.drop_eq_getElem_cons below, List.cons_append] at occurs
  have is_ := (List.cons_prefix_cons.mp occurs).1
  exact absurd (solid _ (List.getElem_mem below)) (by rw [← is_]; decide)

theorem nameOf_alias {front name space rest : Text} (blank : Blank front) (some_ : name ≠ [])
    (solid : ∀ c ∈ name, isSpace c = false) (blank' : Blank space) (more : ¬Blank rest) :
    nameOf (front ++ (name ++ (space ++ (asWord ++ rest)))) = name := by
  obtain ⟨tail, tail_⟩ : ∃ tail, rstrip (' ' :: rest) = ' ' :: tail := by
    obtain ⟨behind, hbehind, whole⟩ := exists_rstrip (' ' :: rest)
    cases kept : rstrip (' ' :: rest) with
    | nil =>
      rw [kept, List.nil_append] at whole
      exact absurd (fun c mem => hbehind c (whole ▸ List.mem_cons_of_mem _ mem)) more
    | cons c tail =>
      rw [kept, List.cons_append] at whole
      exact ⟨tail, by rw [(List.cons.inj whole).1]⟩
  have stripped : strip (name ++ (space ++ (asWord ++ rest))) = (name ++ space) ++ (asWord ++ tail) := by
    obtain ⟨c, t, rfl⟩ := List.exists_cons_of_ne_nil some_
    have last : ∀ d ∈ ((c :: t ++ (space ++ [' ', 'a'])) ++ ['s']).getLast?, isSpace d = false := by
      rw [List.getLast?_concat]
      rintro d ⟨⟩
      rfl
    have cut := rstrip_append last (' ' :: rest)
    rw [strip, List.cons_append, lstrip_cons (solid c List.mem_cons_self)]
    rw [tail_] at cut
    simpa [asWord] using cut
  rw [nameOf, strip_append_of_blank blank, stripped, before_of_clear, strip_of_append_blank blank', strip_name solid]
  rw [List.append_assoc]
  exact clearBelow_asWord solid blank' tail

end FreeSwarm.Library
