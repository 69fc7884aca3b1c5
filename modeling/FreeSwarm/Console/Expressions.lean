import FreeSwarm.Foundation.Text
import Mathlib.Data.List.DropRight

/-!
# Signal expressions

An expression is rewritten as text, parsed by Python, checked by `expression_columns` and evaluated row by row. It
means what SQL makes of it but for chained comparisons with a false and a missing part, calls with a wrong number of
arguments, whole numbers that are no float, and quoted names that the rewriting or another column with the same
letters changes.
-/

namespace FreeSwarm.Console.Expressions

abbrev Text := List Char

/-! ## Text -/

/-- `_MATH_SIGNS`. -/
def MATH_SIGNS : List (Char × Text) :=
  [('×', ['*']), ('·', ['*']), ('⋅', ['*']), ('∗', ['*']), ('÷', ['/']), ('∕', ['/']), ('−', ['-']), ('–', ['-']),
    ('—', ['-']), ('≤', "<=".toList), ('≥', ">=".toList), ('≠', "!=".toList), ('（', ['(']), ('）', [')'])]

def plainMath (expr : Text) : Text := expr.flatMap fun c => (MATH_SIGNS.lookup c).getD [c]

structure Python where
  /-- `\w`. -/
  word : Char → Bool
  space : Char → Bool
  /-- `str.lower`. -/
  lower : Text → Text
  /-- The value of a string literal. -/
  literal : Text → Option Text

variable (py : Python)

/-- `_BOOL_WORD.sub`: a whole word that is one of these gets small letters. -/
def smallWord (w : Text) : Text :=
  let small := w.map Char.toLower
  if small = "and".toList ∨ small = "or".toList ∨ small = "not".toList then small else w

def boolWords (expr : Text) : Text :=
  (expr.splitBy fun c d => py.word c == py.word d).flatMap smallWord

/-- `replace("<>", "!=")`. -/
def unequal : Text → Text
  | '<' :: '>' :: rest => '!' :: '=' :: unequal rest
  | c :: rest => c :: unequal rest
  | [] => []

/-- A single `=`, given what is before it. -/
def equals : Option Char → Text → Text
  | _, [] => []
  | before, c :: rest =>
    let alone := c = '=' ∧ before.all (· ∉ ['<', '>', '!', '=']) ∧ rest.head? ≠ some '='
    (if alone then ['=', '='] else [c]) ++ equals (some c) rest

/-- `_normalize`. -/
def normalize (expr : Text) : Text :=
  equals none (unequal (boolWords py (((plainMath expr).dropWhile py.space).rdropWhile py.space)))

/-! ## Trees -/

inductive BinOp where
  | add | sub | mult | div | pow

inductive UnaryOp where
  | usub | uadd | not | invert
  deriving DecidableEq

inductive CmpOp where
  | lt | ltE | gt | gtE | eq | notEq

/-- The kind of a node. An operator that is not in the tables is `none`. -/
inductive Kind where
  | binOp (op : Option BinOp)
  | unaryOp (op : UnaryOp)
  | compare (ops : List (Option CmpOp))
  | boolOp (isAnd : Bool)
  | call (func : Option Text) (keywords : Bool)
  | other

/-- A tree of Python's parser. A number is `none` if it is too large for a float. -/
inductive Expr (V : Type) where
  | text (value : Text)
  | name (id : Text)
  | number (value : Option V)
  | constant
  | node (kind : Kind) (args : Expr V)
  | done
  | more (first rest : Expr V)

/-- `_FUNCS`, with how many arguments each takes, or `none` for one or more. -/
def FUNCS : List (Text × Option Nat) :=
  [("abs".toList, some 1), ("ln".toList, some 1), ("log".toList, some 1), ("sqrt".toList, some 1),
    ("exp".toList, some 1), ("sign".toList, some 1), ("power".toList, some 2), ("pow".toList, some 2),
    ("greatest".toList, none), ("least".toList, none), ("nullif".toList, some 2), ("coalesce".toList, none)]

structure Floats (V : Type) where
  finite : V → Bool
  /-- `v > 0`. -/
  positive : V → Bool
  zero : V
  one : V
  nan : V
  bin : BinOp → V → V → V
  neg : V → V
  cmp : CmpOp → V → V → Bool
  call : Text → List V → V
  finite_zero : finite zero = true
  finite_one : finite one = true
  finite_nan : finite nan = false
  positive_zero : positive zero = false
  positive_one : positive one = true

variable {V : Type} (num : Floats V) (cols : List Text) (row : Text → V)

/-- `names`: of columns with the same small letters, the last one. -/
def lookup (s : Text) : Option Text := cols.reverse.find? fun c => py.lower c = py.lower s

def funcOf (func : Option Text) : Option (Option Nat) := func.bind fun f => FUNCS.lookup (py.lower f)

def Kind.allowed : Kind → Bool
  | .binOp op => op.isSome
  | .unaryOp op => op ≠ .invert
  | .compare ops => ops.all Option.isSome
  | .boolOp _ => true
  | .call func keywords => (funcOf py func).isSome && !keywords
  | .other => false

/-- `walk`: the columns that are read, unless it raises. -/
def walk : Expr V → Option (List Text)
  | .text s | .name s => (lookup py cols s).map fun c => [c]
  | .number _ | .done => some []
  | .constant => none
  | .node kind args => if kind.allowed py then walk args else none
  | .more first rest => (walk first).bind fun used => (walk rest).map (used ++ ·)

variable (k : Kind) (vals : List V)

def Kind.takes (n : Nat) : Bool :=
  match k with
  | .binOp _ => n = 2
  | .unaryOp _ => n = 1
  | .compare ops => 0 < ops.length && n = ops.length + 1
  | .boolOp _ => true
  | .call func _ => (funcOf py func).any fun arity => arity.elim (decide (0 < n)) (n = ·)
  | .other => false

/-- The parts of a chain of comparisons. -/
def linkValues : V → List (Option CmpOp) → List V → List V
  | prev, op :: ops, right :: rest =>
    (if num.finite prev && num.finite right then
      if op.any fun op => num.cmp op prev right then num.one else num.zero
    else num.nan) :: linkValues right ops rest
  | _, _, _ => []

/-- A chain so far, and its next part. -/
def both (result out : V) : V :=
  if !num.finite result || !num.finite out then num.nan
  else if num.positive result && num.positive out then num.one else num.zero

def notValue (v : V) : V :=
  if num.finite v then if num.positive v then num.zero else num.one else num.nan

def andValue : V :=
  if vals.any fun v => num.finite v && !num.positive v then num.zero
  else if vals.any fun v => !num.finite v then num.nan else num.one

def orValue : V :=
  if vals.any fun v => num.finite v && num.positive v then num.one
  else if vals.any fun v => !num.finite v then num.nan else num.zero

/-- What is the same for the code and for what is meant. -/
def plain : V :=
  match k, vals with
  | .binOp (some op), [a, b] => num.bin op a b
  | .unaryOp .usub, [a] => num.neg a
  | .unaryOp .uadd, [a] => a
  | .call (some f) _, vals => num.call (py.lower f) vals
  | _, _ => num.nan

/-- `val` of a node, by the values of its parts. -/
def value : V :=
  match k, vals with
  | .unaryOp .not, [a] => notValue num a
  | .compare ops, prev :: rest =>
    match linkValues num prev ops rest with
    | [] => num.nan
    | out :: outs => outs.foldl (both num) out
  | .boolOp isAnd, vals => if isAnd then andValue num vals else orValue num vals
  | k, vals => plain py num k vals

/-- The values of a tree, by what a node makes of those of its parts, unless it raises. -/
def run (f : Kind → List V → V) : Expr V → Option (List V)
  | .text s | .name s => (lookup py cols s).map fun c => [row c]
  | .number v => v.map fun v => [v]
  | .constant => none
  | .node kind args =>
    (run f args).bind fun vals => if kind.takes py vals.length then some [f kind vals] else none
  | .done => some []
  | .more first rest => (run f first).bind fun vals => (run f rest).map (vals ++ ·)

/-! ## What is meant -/

def truth (v : V) : Option Bool := if num.finite v then some (num.positive v) else none

def ofTruth : Option Bool → V
  | some true => num.one
  | some false => num.zero
  | none => num.nan

/-- All are true: false if one is, and else missing if one is. -/
def conj (l : List (Option Bool)) : Option Bool :=
  if some false ∈ l then some false else if none ∈ l then none else some true

/-- One is true: true if one is, and else missing if one is. -/
def disj (l : List (Option Bool)) : Option Bool :=
  if some true ∈ l then some true else if none ∈ l then none else some false

/-- The comparisons of a chain. -/
def links : V → List (Option CmpOp) → List V → List (Option Bool)
  | prev, op :: ops, right :: rest =>
    (if num.finite prev && num.finite right then some (op.any fun op => num.cmp op prev right) else none) ::
      links right ops rest
  | _, _, _ => []

def meaning : V :=
  match k, vals with
  | .unaryOp .not, [a] => ofTruth num ((truth num a).map not)
  | .compare ops, prev :: rest => ofTruth num (conj (links num prev ops rest))
  | .boolOp isAnd, vals => ofTruth num (if isAnd then conj (vals.map (truth num)) else disj (vals.map (truth num)))
  | k, vals => plain py num k vals

/-- Each part has a value, and means it. -/
def Agrees : Expr V → Prop
  | .node kind args => Agrees args ∧ ∃ v, run py cols row (value py num) (.node kind args) = some v ∧
      run py cols row (meaning py num) (.node kind args) = some v
  | .more first rest => Agrees first ∧ Agrees rest
  | e => ∃ v, run py cols row (value py num) e = some v ∧ run py cols row (meaning py num) e = some v

/-- No chain has a false part and a missing one. -/
def Kind.Settled : Prop :=
  match k, vals with
  | .compare ops, prev :: rest => ¬ (some false ∈ links num prev ops rest ∧ none ∈ links num prev ops rest)
  | _, _ => True

/-- All numbers are floats, all nodes have the right number of parts, and all chains are settled. -/
def Clean : Expr V → Prop
  | .number v => v ≠ none
  | .node kind args => Clean args ∧ ∀ vals, run py cols row (meaning py num) args = some vals →
      kind.takes py vals.length = true ∧ kind.Settled num vals
  | .more first rest => Clean first ∧ Clean rest
  | _ => True

section Calls

variable (parse : Text → Option (Expr V))

/-- `expression_columns`. -/
def expressionColumns (expr : Text) : Option (List Text) :=
  if expr ∈ cols then some [expr]
  else (((parse (normalize py expr)).bind (walk py cols)).filter (· ≠ [])).map List.eraseDups

/-- `eval_expression`, by what a node makes of the values of its parts. -/
def evaluate (f : Kind → List V → V) (expr : Text) : Option V :=
  let settle (v : V) := if num.finite v then v else num.nan
  if expr ∈ cols then some (settle (row expr))
  else (expressionColumns py cols parse expr).bind fun _ =>
    ((parse (normalize py expr)).bind (run py cols row f)).bind fun vals => vals.head?.map settle

def evalExpression (expr : Text) : Option V := evaluate py num cols row parse (value py num) expr

def denotation (expr : Text) : Option V := evaluate py num cols row parse (meaning py num) expr

end Calls

def quotedColumn (c : Text) : Option Text := (py.literal (normalize py ('"' :: c ++ ['"']))).bind (lookup py cols)

/-! ## Results -/

variable {py num cols row}

theorem truth_ofTruth (t : Option Bool) : truth num (ofTruth num t) = t := by
  rcases t with _ | _ | _ <;>
    simp [truth, ofTruth, num.finite_zero, num.finite_one, num.finite_nan, num.positive_zero, num.positive_one]

theorem linkValues_eq (prev : V) (ops : List (Option CmpOp)) (vals : List V) :
    linkValues num prev ops vals = (links num prev ops vals).map (ofTruth num) := by
  induction ops generalizing prev vals with
  | nil => rfl
  | cons op ops ih =>
    cases vals with
    | nil => rfl
    | cons right rest =>
      rw [linkValues, links, List.map_cons, ih]
      refine congrArg (· :: _) ?_
      split
      · cases op.any fun op => num.cmp op prev right <;> rfl
      · rfl

/-- Two parts of a chain: missing if either is. -/
def strict (a b : Option Bool) : Option Bool := a.bind fun a => b.map (a && ·)

theorem both_ofTruth (a b : Option Bool) : both num (ofTruth num a) (ofTruth num b) = ofTruth num (strict a b) := by
  rcases a with _ | _ | _ <;> rcases b with _ | _ | _ <;>
    simp [both, ofTruth, strict, num.finite_zero, num.finite_one, num.finite_nan, num.positive_zero, num.positive_one]

variable (l : List (Option Bool)) (a : Option Bool)

theorem foldl_both :
    (l.map (ofTruth num)).foldl (both num) (ofTruth num a) = ofTruth num (l.foldl strict a) := by
  induction l generalizing a with
  | nil => rfl
  | cons b l ih => rw [List.map_cons, List.foldl_cons, both_ofTruth, ih, List.foldl_cons]

theorem foldl_strict :
    l.foldl strict a = if none ∈ a :: l then none else conj (a :: l) := by
  induction l generalizing a with
  | nil => rcases a with _ | _ | _ <;> rfl
  | cons b l ih =>
    rw [List.foldl_cons, ih]
    rcases a with _ | _ | _ <;> rcases b with _ | _ | _ <;> simp [strict, conj]

theorem foldl_strict_eq_conj :
    l.foldl strict a = conj (a :: l) ↔ ¬ (some false ∈ a :: l ∧ none ∈ a :: l) := by
  rw [foldl_strict]
  by_cases missing : none ∈ a :: l
  · by_cases false_ : some false ∈ a :: l <;> simp only [conj, missing, false_] <;> simp
  · simp [missing]

theorem andValue_eq (vals : List V) : andValue num vals = ofTruth num (conj (vals.map (truth num))) := by
  have false_ : some false ∈ vals.map (truth num) ↔ (vals.any fun v => num.finite v && !num.positive v) = true := by
    simp [truth, List.mem_map]
  have missing : none ∈ vals.map (truth num) ↔ (vals.any fun v => !num.finite v) = true := by
    simp [truth, List.mem_map]
  unfold andValue conj
  simp only [false_, missing]
  split_ifs <;> rfl

theorem orValue_eq (vals : List V) : orValue num vals = ofTruth num (disj (vals.map (truth num))) := by
  have true_ : some true ∈ vals.map (truth num) ↔ (vals.any fun v => num.finite v && num.positive v) = true := by
    simp [truth, List.mem_map]
  have missing : none ∈ vals.map (truth num) ↔ (vals.any fun v => !num.finite v) = true := by
    simp [truth, List.mem_map]
  unfold orValue disj
  simp only [true_, missing]
  split_ifs <;> rfl

theorem notValue_eq (v : V) : notValue num v = ofTruth num ((truth num v).map not) := by
  unfold notValue truth
  cases num.finite v <;> cases num.positive v <;> rfl

/-- A node means what it says exactly if it is no chain with a false part and a missing one. -/
theorem value_eq_meaning {k : Kind} {vals : List V} (takes : k.takes py vals.length = true) :
    value py num k vals = meaning py num k vals ↔ k.Settled num vals := by
  cases k with
  | compare ops =>
    cases vals with
    | nil => simp [Kind.takes] at takes
    | cons prev rest =>
      cases ops with
      | nil => simp [Kind.takes] at takes
      | cons op ops =>
        cases rest with
        | nil => simp [Kind.takes] at takes
        | cons right rest =>
          simp only [value, meaning, Kind.Settled, linkValues_eq]
          rw [links, List.map_cons]
          dsimp only
          rw [foldl_both, ← foldl_strict_eq_conj]
          refine ⟨fun same => ?_, congrArg _⟩
          have back := congrArg (truth num) same
          rwa [truth_ofTruth, truth_ofTruth] at back
  | boolOp isAnd =>
    cases isAnd <;> simp [value, meaning, Kind.Settled, andValue_eq, orValue_eq]
  | unaryOp op =>
    cases op with
    | not =>
      cases vals with
      | nil => simp [value, meaning, Kind.Settled]
      | cons a rest => cases rest <;> simp [value, meaning, Kind.Settled, notValue_eq]
    | _ => simp [value, meaning, Kind.Settled]
  | _ => simp [value, meaning, Kind.Settled]

theorem Agrees.run {e : Expr V} (agrees : Agrees py num cols row e) :
    ∃ vals, Expressions.run py cols row (value py num) e = some vals ∧
      Expressions.run py cols row (meaning py num) e = some vals := by
  induction e with
  | node kind args => exact agrees.2
  | more first rest ihFirst ihRest =>
    obtain ⟨vals, runs, means⟩ := ihFirst agrees.1
    obtain ⟨vals', runs', means'⟩ := ihRest agrees.2
    exact ⟨vals ++ vals', by simp [Expressions.run, runs, runs'], by simp [Expressions.run, means, means']⟩
  | _ => exact agrees

theorem agrees_iff (e : Expr V) (accepted : walk py cols e ≠ none) :
    Agrees py num cols row e ↔ Clean py num cols row e := by
  induction e with
  | text s | name s =>
    cases there : lookup py cols s with
    | none => exact absurd (by rw [walk, there]; rfl) accepted
    | some c => simp [Agrees, Clean, Expressions.run, there]
  | number v => cases v <;> simp [Agrees, Clean, Expressions.run]
  | constant => exact absurd rfl accepted
  | done => simp [Agrees, Clean, Expressions.run]
  | more first rest ihFirst ihRest =>
    refine and_congr (ihFirst fun none_ => accepted ?_) (ihRest fun none_ => accepted ?_)
    · rw [walk, none_]
      rfl
    · rw [walk, none_]
      cases walk py cols first <;> rfl
  | node kind args ih =>
    have inner := ih fun none_ => accepted (by rw [walk, none_, ite_self])
    rw [Agrees, Clean, ← inner]
    refine and_congr_right fun agrees => ?_
    obtain ⟨vals, runs, means⟩ := agrees.run
    simp only [Expressions.run, runs, means, Option.bind_some, Option.some.injEq, forall_eq']
    by_cases takes : kind.takes py vals.length = true
    · simp only [takes, if_true, true_and, Option.some.injEq, ← value_eq_meaning takes]
      constructor
      · rintro ⟨v, rfl, same⟩
        exact (List.cons.inj same).1.symm
      · exact fun same => ⟨_, rfl, by rw [same]⟩
    · simp [takes]

variable {used : List Text}

/-- A tree is evaluated from the columns that the walk finds. -/
theorem run_congr (f : Kind → List V → V) {row' : Text → V} (e : Expr V)
    (walks : walk py cols e = some used) (same : ∀ c ∈ used, row c = row' c) :
    run py cols row f e = run py cols row' f e := by
  induction e generalizing used with
  | text s | name s =>
    rw [walk] at walks
    obtain ⟨c, there, rfl⟩ := Option.map_eq_some_iff.mp walks
    simp [run, there, same c (List.mem_singleton_self c)]
  | node kind args ih =>
    rw [walk] at walks
    split at walks
    · rw [run, run, ih walks same]
    · exact absurd walks (by simp)
  | more first rest ihFirst ihRest =>
    rw [walk] at walks
    obtain ⟨left, walksFirst, walks⟩ := Option.bind_eq_some_iff.mp walks
    obtain ⟨right, walksRest, rfl⟩ := Option.map_eq_some_iff.mp walks
    rw [run, run, ihFirst walksFirst fun c mem => same c (List.mem_append_left _ mem),
      ihRest walksRest fun c mem => same c (List.mem_append_right _ mem)]
  | _ => rfl

/-- Of columns with the same letters, the last one is found. -/
theorem lookup_eq_some {s c : Text} : lookup py cols s = some c ↔
    py.lower s = py.lower c ∧ ∃ front back, cols = front ++ c :: back ∧ ∀ d ∈ back, py.lower d ≠ py.lower c := by
  rw [lookup, List.find?_eq_some_iff_append]
  simp only [decide_eq_true_eq, Bool.not_eq_true', decide_eq_false_iff_not]
  constructor
  · rintro ⟨is_, back, front, split, others⟩
    refine ⟨is_.symm, front.reverse, back.reverse, ?_, fun d mem => ?_⟩
    · simpa using congrArg List.reverse split
    · rw [is_]
      exact others d (List.mem_reverse.mp mem)
  · rintro ⟨is_, front, back, rfl, others⟩
    refine ⟨is_.symm, back.reverse, front.reverse, by simp, fun d mem => ?_⟩
    rw [is_]
    exact others d (List.mem_reverse.mp mem)

/-- A tree that reads a column has a value. -/
theorem used_eq_nil {f : Kind → List V → V} {e : Expr V} (walks : walk py cols e = some used)
    (runs : run py cols row f e = some []) : used = [] := by
  induction e generalizing used with
  | text s | name s =>
    rw [run] at runs
    obtain ⟨c, -, none_⟩ := Option.map_eq_some_iff.mp runs
    exact absurd none_ (by simp)
  | number v => exact (Option.some.inj walks).symm
  | constant => exact absurd walks (by simp [walk])
  | done => exact (Option.some.inj walks).symm
  | node kind args =>
    rw [run] at runs
    obtain ⟨vals, -, none_⟩ := Option.bind_eq_some_iff.mp runs
    split at none_ <;> exact absurd none_ (by simp)
  | more first rest ihFirst ihRest =>
    rw [walk] at walks
    obtain ⟨left, walksFirst, walks⟩ := Option.bind_eq_some_iff.mp walks
    obtain ⟨right, walksRest, rfl⟩ := Option.map_eq_some_iff.mp walks
    rw [run] at runs
    obtain ⟨vals, runsFirst, runs⟩ := Option.bind_eq_some_iff.mp runs
    obtain ⟨vals', runsRest, none_⟩ := Option.map_eq_some_iff.mp runs
    obtain ⟨rfl, rfl⟩ := List.append_eq_nil_iff.mp none_
    rw [ihFirst walksFirst runsFirst, ihRest walksRest runsRest, List.append_nil]

theorem expressionColumns_eq_some {parse : Text → Option (Expr V)} {expr : Text} (other : expr ∉ cols)
    : expressionColumns py cols parse expr = some used ↔
      ∃ e found, parse (normalize py expr) = some e ∧ walk py cols e = some found ∧ found ≠ [] ∧
        found.eraseDups = used := by
  simp only [expressionColumns, other, if_false, Option.map_eq_some_iff, Option.filter_eq_some_iff,
    Option.bind_eq_some_iff, decide_eq_true_eq]
  constructor
  · rintro ⟨found, ⟨⟨e, parsed, walks⟩, some_⟩, same⟩
    exact ⟨e, found, parsed, walks, some_, same⟩
  · rintro ⟨e, found, parsed, walks, some_, same⟩
    exact ⟨found, ⟨⟨e, parsed, walks⟩, some_⟩, same⟩

/-- A column is itself. Of any other expression that is accepted all parts mean what they say exactly if it is clean,
and then its value is what it means. It is read from the columns that are told. A quoted name is that column exactly
if the rewriting leaves its letters, and no later column has the same ones. -/
theorem expression_iff (py : Python) (num : Floats V) (cols : List Text) (parse : Text → Option (Expr V))
    (row : Text → V) :
    (∀ expr ∈ cols, expressionColumns py cols parse expr = some [expr] ∧
      evalExpression py num cols row parse expr = denotation py num cols row parse expr) ∧
    (∀ expr e, expr ∉ cols → parse (normalize py expr) = some e → (expressionColumns py cols parse expr).isSome →
      (Agrees py num cols row e ↔ Clean py num cols row e) ∧
      (Clean py num cols row e → ∃ v, evalExpression py num cols row parse expr = some v ∧
        denotation py num cols row parse expr = some v)) ∧
    (∀ expr used row', expressionColumns py cols parse expr = some used → (∀ c ∈ used, row c = row' c) →
      evalExpression py num cols row parse expr = evalExpression py num cols row' parse expr) ∧
    ∀ c, quotedColumn py cols c = some c ↔ ∃ s front back, py.literal (normalize py ('"' :: c ++ ['"'])) = some s ∧
      py.lower s = py.lower c ∧ cols = front ++ c :: back ∧ ∀ d ∈ back, py.lower d ≠ py.lower c := by
  refine ⟨fun expr mem => ?_, fun expr e other parsed accepted => ?_, fun expr used row' told same => ?_, fun c => ?_⟩
  · exact ⟨if_pos mem, by rw [evalExpression, denotation, evaluate, evaluate, if_pos mem, if_pos mem]⟩
  · obtain ⟨used, told⟩ := Option.isSome_iff_exists.mp accepted
    obtain ⟨e', found, parsed', walks, some_, -⟩ := (expressionColumns_eq_some other).mp told
    cases parsed.symm.trans parsed'
    have iff : Agrees py num cols row e ↔ Clean py num cols row e := agrees_iff e (by simp [walks])
    refine ⟨iff, fun clean => ?_⟩
    obtain ⟨vals, runs, means⟩ := (iff.mpr clean).run
    cases vals with
    | nil => exact absurd (used_eq_nil walks runs) some_
    | cons v vals =>
      refine ⟨if num.finite v then v else num.nan, ?_, ?_⟩
      · rw [evalExpression, evaluate, if_neg other, told, Option.bind_some, parsed, Option.bind_some, runs]
        rfl
      · rw [ denotation, evaluate, if_neg other, told, Option.bind_some, parsed, Option.bind_some, means]
        rfl
  · unfold evalExpression evaluate
    by_cases mem : expr ∈ cols
    · obtain rfl : [expr] = used := Option.some.inj ((if_pos mem).symm.trans told)
      rw [if_pos mem, if_pos mem, same expr (List.mem_singleton_self _)]
    · obtain ⟨e, found, parsed, walks, -, rfl⟩ := (expressionColumns_eq_some mem).mp told
      rw [if_neg mem, if_neg mem, parsed, Option.bind_some, Option.bind_some,
        run_congr _ e walks fun c mem => same c (List.mem_eraseDups.mpr mem)]
  · simp only [quotedColumn, Option.bind_eq_some_iff, lookup_eq_some]
    constructor
    · rintro ⟨s, literal, is_, front, back, split, others⟩
      exact ⟨s, front, back, literal, is_, split, others⟩
    · rintro ⟨s, front, back, literal, is_, split, others⟩
      exact ⟨s, literal, is_, front, back, split, others⟩

/-- Python, for text without escapes. -/
def ascii : Python where
  word c := c.isAlphanum || c = '_'
  space c := c = ' '
  lower := List.map Char.toLower
  literal text := some (text.drop 1).dropLast

def wholes : Floats (Option Int) where
  finite v := v.isSome
  positive v := v.any (0 < ·)
  zero := some 0
  one := some 1
  nan := none
  bin _ a _ := a
  neg v := v.map fun x => -x
  cmp op a b :=
    match op with
    | .lt => decide (a.getD 0 < b.getD 0)
    | _ => false
  call _ vals := vals.head?.getD none
  finite_zero := rfl
  finite_one := rfl
  finite_nan := rfl
  positive_zero := rfl
  positive_one := rfl

/-- `a < b < c`. -/
def chain : Expr (Option Int) :=
  .node (.compare [some .lt, some .lt]) (.more (.name ['a']) (.more (.name ['b']) (.more (.name ['c']) .done)))

def abc : List Text := [['a'], ['b'], ['c']]

theorem expression_iff_chain : Agrees ascii wholes abc (fun c => if c = ['a'] then some 0 else some 1) chain ↔
    Clean ascii wholes abc (fun c => if c = ['a'] then some 0 else some 1) chain :=
  ((expression_iff ascii wholes abc (fun _ => some chain) fun c => if c = ['a'] then some 0 else some 1).2.1
    "a < b < c".toList chain (by with_unfolding_all decide) rfl (by with_unfolding_all decide)).1

/-- `a < b` is false and `c` is missing, and the chain is missing where its conjunction is false. The column `a=b` is
not found by its quoted name. -/
theorem expression_chain :
    (expressionColumns ascii abc (fun _ => some chain) "a < b < c".toList = some abc ∧
      evalExpression ascii wholes abc (fun c => if c = ['c'] then none else some 1) (fun _ => some chain)
        "a < b < c".toList = some none ∧
      denotation ascii wholes abc (fun c => if c = ['c'] then none else some 1) (fun _ => some chain)
        "a < b < c".toList = some (some 0)) ∧
    quotedColumn ascii ["a=b".toList] "a=b".toList = none := by
  with_unfolding_all decide

end FreeSwarm.Console.Expressions
