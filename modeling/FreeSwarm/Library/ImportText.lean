import FreeSwarm.Foundation.Blanks

/-!
# Import statements

The import statements of Python as they are written: with what stands between their words, with dots that have blanks
around them, with lists of names that go over lines in parentheses or by backslashes. A script is cut into its import
statements and the text between them. A statement says which modules of the package `lib` are loaded when it runs.
-/

namespace FreeSwarm.Library

open FreeSwarm.Foundation

abbrev Text := List Char

/-- What differs between the tables of characters of one Python and another. -/
structure Unicode where
  word : Char → Bool
  normal : Text → Text

/-! ## Words and what stands between them -/

/-- What has a text. -/
class Written (α : Type) where
  text : α → Text

/-- The text of several things, one behind the other. -/
def spelled {α : Type} [Written α] (l : List α) : Text := l.flatMap Written.text

@[simp] theorem spelled_nil {α : Type} [Written α] : spelled ([] : List α) = [] := rfl

@[simp] theorem spelled_cons {α : Type} [Written α] (a : α) (l : List α) :
    spelled (a :: l) = Written.text a ++ spelled l := rfl

/-- The end of a line. -/
inductive Newline
  | lf
  | crlf
  | cr

/-- The characters that end a line. -/
def Newline.text : Newline → Text
  | .lf => ['\n']
  | .crlf => ['\r', '\n']
  | .cr => ['\r']

/-- What stands between two words of a line. -/
inductive Space
  | space
  | tab
  | formFeed
  | joined (n : Newline)

instance : Written Space where
  text
    | .space => [' ']
    | .tab => ['\t']
    | .formFeed => [Char.ofNat 12]
    | .joined n => '\\' :: n.text

/-- A comment, behind its number sign. -/
structure Comment where
  text : Text
  line : ∀ c ∈ text, c ≠ '\n' ∧ c ≠ '\r'

/-- What stands between two words within parentheses. -/
inductive Room
  | space (s : Space)
  | newline (n : Newline)
  | comment (c : Comment) (n : Newline)

instance : Written Room where
  text
    | .space s => Written.text s
    | .newline n => n.text
    | .comment c n => '#' :: (c.text ++ n.text)

/-- What keeps two words apart. -/
structure Gap (σ : Type) where
  first : σ
  more : List σ

instance {σ : Type} [Written σ] : Written (Gap σ) where
  text gap := spelled (gap.first :: gap.more)

variable (c : Char)

/-- `[a-z]`. -/
def isLower : Bool := 97 ≤ c.toNat && c.toNat ≤ 122

/-- `[0-9]`. -/
def isDigit : Bool := 48 ≤ c.toNat && c.toNat ≤ 57

/-- `[a-zA-Z0-9_]`. -/
def isAscii : Bool := isLower c || (65 ≤ c.toNat && c.toNat ≤ 90) || isDigit c || c = '_'

def isIdent : Bool := isAscii c || (128 ≤ c.toNat && !isSpace c)

structure Ident where
  text : Text
  some_ : text ≠ []
  letters : ∀ c ∈ text, isIdent c = true

instance : Written Ident := ⟨Ident.text⟩

/-- A name with dots, and with what stands around each dot. -/
structure Path where
  head : Ident
  tail : List (List Space × List Space × Ident)

instance : Written Path where
  text path := path.head.text ++
    path.tail.flatMap fun part => spelled part.1 ++ '.' :: (spelled part.2.1 ++ part.2.2.text)

/-! ## Lists of names -/

/-- Another name under which one goes, behind `as`. -/
structure Alias (σ : Type) where
  before : Gap σ
  behind : Gap σ
  name : Ident

instance {σ : Type} [Written σ] : Written (Alias σ) where
  text a := Written.text a.before ++ 'a' :: 's' :: (Written.text a.behind ++ a.name.text)

/-- A name in a list, and what stands around it. -/
structure Entry (σ ι : Type) where
  before : List σ
  name : ι
  as_ : Option (Alias σ)
  behind : List σ

instance {σ ι : Type} [Written σ] [Written ι] : Written (Entry σ ι) where
  text e := spelled e.before ++ (Written.text e.name ++ (spelled e.as_.toList ++ spelled e.behind))

/-- A list of names. -/
structure Series (σ ι : Type) where
  first : Entry σ ι
  more : List (Entry σ ι)

instance {σ ι : Type} [Written σ] [Written ι] : Written (Series σ ι) where
  text names := Written.text names.first ++ names.more.flatMap fun e => ',' :: Written.text e

/-! ## Statements -/

/-- From where names are imported. -/
inductive Origin
  | absolute (apart : Gap Space) (path : Path) (behind : Gap Space)
  /-- `from .`, `from ..`, `from .path`. Each dot has what stands behind it. -/
  | relative (before : List Space) (dot : List Space) (dots : List (List Space)) (path : Option (Path × Gap Space))

instance : Written Origin where
  text
    | .absolute apart path behind => Written.text apart ++ (Written.text path ++ Written.text behind)
    | .relative before dot dots path => spelled before ++
        (((dot :: dots).flatMap fun gap => '.' :: spelled gap) ++
          path.toList.flatMap fun p => Written.text p.1 ++ Written.text p.2)

/-- What is imported from somewhere. -/
inductive Targets
  | star (before : List Space)
  | plain (apart : Gap Space) (names : Series Space Ident)
  /-- `(a, b)`, with what stands behind a comma at the end. -/
  | inParens (before : List Space) (names : Series Room Ident) (comma : Option (List Room))

instance : Written Targets where
  text
    | .star before => spelled before ++ ['*']
    | .plain apart names => Written.text apart ++ Written.text names
    | .inParens before names comma => spelled before ++ '(' :: (Written.text names ++
        ((comma.toList.flatMap fun room => ',' :: spelled room) ++ [')']))

inductive Statement
  | imports (apart : Gap Space) (names : Series Space Path)
  | fromImport (origin : Origin) (targets : Targets)

/-- `import`. -/
def importWord : Text := ['i', 'm', 'p', 'o', 'r', 't']

/-- `from`. -/
def fromWord : Text := ['f', 'r', 'o', 'm']

/-- `lib`. -/
def libWord : Text := ['l', 'i', 'b']

instance : Written Statement where
  text
    | .imports apart names => importWord ++ (Written.text apart ++ Written.text names)
    | .fromImport origin targets => fromWord ++ (Written.text origin ++ (importWord ++ Written.text targets))

/-- A part of a script. -/
inductive Piece
  | other (text : Text)
  | statement (s : Statement)

instance : Written Piece where
  text
    | .other text => text
    | .statement s => Written.text s

/-- A script: its import statements, with all the text between them. -/
abbrev Script := List Piece

/-! ## What a statement loads -/

/-- The package's own module. -/
def initName : Text := ['_', '_', 'i', 'n', 'i', 't', '_', '_']

namespace Path

variable (u : Unicode)

/-- The path leads into the package. -/
def InLib (path : Path) : Prop := u.normal path.head.text = libWord

instance (path : Path) : Decidable (path.InLib u) := inferInstanceAs (Decidable (_ = _))

def loads (path : Path) : List Text :=
  if path.InLib u then initName :: (path.tail.head?.map fun part => u.normal part.2.2.text).toList else []

end Path

def Series.entries {σ ι : Type} (names : Series σ ι) : List (Entry σ ι) := names.first :: names.more

/-- The names of what is imported from the package. `listed` is what it has in `__all__`. -/
def Targets.names (u : Unicode) (listed : List Text) : Targets → List Text
  | .star _ => listed
  | .plain _ names => names.entries.map fun e => u.normal e.name.text
  | .inParens _ names _ => names.entries.map fun e => u.normal e.name.text

/-- The modules of the package that the statement loads, where it stands in one of them or in a script. Only from its
modules does a relative import lead to the package, and by one dot only. -/
def Statement.loads (u : Unicode) (listed : List Text) (inside : Bool) : Statement → List Text
  | .imports _ names => names.entries.flatMap fun e => e.name.loads u
  | .fromImport (.absolute _ path _) targets =>
    path.loads u ++ if path.InLib u ∧ path.tail = [] then targets.names u listed else []
  | .fromImport (.relative _ _ dots path) targets =>
    if inside ∧ dots = [] then
      match path with
      | none => targets.names u listed
      | some p => [u.normal p.1.head.text]
    else []

end FreeSwarm.Library
