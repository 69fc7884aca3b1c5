import FreeSwarm.Library.ImportRe

/-!
# Import statements that the pattern reads

A statement tells a name when it stands in a form that the pattern of `imported_modules` reads: in the first place of
`import lib.a`, in `from lib.a import`, or in the list of `from lib import` between two commas, without a comment or a
backslash that comes in between. When the search comes to the statement, the name is among those that are read, however
the text before it and behind it looks.
-/

namespace FreeSwarm.Library

open FreeSwarm.Foundation Pattern

/-! ## Clauses -/

/-- The text up to the first comma, as far as the match goes. -/
def clauseOf (keeps : Char → Bool) (t : Text) : Text := (t.takeWhile keeps).takeWhile (· ≠ ',')

section Clauses
variable {σ : Type} [Written σ] {keeps : Char → Bool}

theorem clauseOf_append {front : Text} (kept : ∀ c ∈ front, keeps c = true ∧ c ≠ ',') (t : Text) :
    clauseOf keeps (front ++ t) = front ++ clauseOf keeps t := by
  rw [clauseOf, List.takeWhile_append_of_pos fun c mem => (kept c mem).1, List.takeWhile_append_of_pos]
  · rfl
  · exact fun c mem => decide_eq_true (kept c mem).2

theorem clauseOf_mem (t : Text) : clauseOf keeps t ∈ (t.takeWhile keeps).splitOn ',' := by
  rw [clauseOf]
  by_cases comma : ',' ∈ t.takeWhile keeps
  · obtain ⟨front, back, whole, free⟩ := List.eq_append_cons_of_mem comma
    have front_ : (front ++ ',' :: back).takeWhile (· ≠ ',') = front :=
      takeWhile_append_stops (fun c mem => decide_eq_true fun same => free (same ▸ mem)) (by simp [Stops])
    rw [whole, front_, List.splitOn_append_cons_self_of_not_mem free]
    exact List.mem_cons_self
  · have all : (t.takeWhile keeps).takeWhile (· ≠ ',') = t.takeWhile keeps :=
      List.takeWhile_eq_self_iff.mpr fun c mem => decide_eq_true fun same => comma (same ▸ mem)
    rw [all, List.splitOn_eq_singleton comma]
    exact List.mem_singleton_self _

/-- What may stand between words is blank, or starts with a character that belongs to a clause. The match goes on over
identifiers and commas. -/
structure Keeps (σ : Type) [Written σ] (keeps : Char → Bool) : Prop where
  ident : ∀ c, isIdent c = true → keeps c = true
  comma : keeps ',' = true
  tame : ∀ s : σ, (∀ c ∈ Written.text s, isSpace c = true ∧ keeps c = true) ∨
    ∃ c t, Written.text s = c :: t ∧ isSpace c = false ∧ keeps c = true ∧ c ≠ ','

theorem ne_comma_of_isSpace {c : Char} (is_ : isSpace c = true) : c ≠ ',' :=
  fun same => absurd (same ▸ is_) (by decide)

theorem Keeps.blank (keeps_ : Keeps σ keeps) {gap : List σ} (blank : Blank (spelled gap)) :
    ∀ c ∈ spelled gap, keeps c = true ∧ c ≠ ',' := by
  intro c mem
  refine ⟨?_, ne_comma_of_isSpace (blank c mem)⟩
  obtain ⟨s, there, inside⟩ := List.mem_flatMap.mp mem
  rcases keeps_.tame s with all | ⟨d, t, text_, solid, -⟩
  · exact (all c inside).2
  · have first : d ∈ spelled gap := List.mem_flatMap.mpr ⟨s, there, text_ ▸ List.mem_cons_self⟩
    exact absurd (blank d first) (by simp [solid])

theorem Keeps.letters (keeps_ : Keeps σ keeps) (n : Ident) : ∀ c ∈ n.text, keeps c = true ∧ c ≠ ',' :=
  fun c mem => ⟨keeps_.ident c (n.letters c mem), ne_of_isIdent (n.letters c mem) rfl⟩

theorem Keeps.not_blank (keeps_ : Keeps σ keeps) (gap : List σ) (n : Ident) (rest : Text) :
    ¬Blank (clauseOf keeps (spelled gap ++ (n.text ++ rest))) := by
  induction gap with
  | nil =>
    obtain ⟨c, t, text_⟩ := List.exists_cons_of_ne_nil n.some_
    rw [spelled_nil, List.nil_append, clauseOf_append (keeps_.letters n)]
    intro blank
    have first : c ∈ n.text := text_ ▸ List.mem_cons_self
    have solid := isSpace_of_isIdent (n.letters c first)
    exact absurd (blank c (List.mem_append_left _ first)) (by simp [solid])
  | cons s gap ih =>
    rw [spelled_cons, List.append_assoc]
    rcases keeps_.tame s with all | ⟨c, t, text_, solid, kept, apart⟩
    · rw [clauseOf_append fun c mem => ⟨(all c mem).2, ne_comma_of_isSpace (all c mem).1⟩]
      exact fun blank => ih fun c mem => blank c (List.mem_append_right _ mem)
    · rw [text_, List.cons_append, ← List.singleton_append, clauseOf_append (by simp [kept, apart])]
      exact fun blank => absurd (blank c (by simp)) (by simp [solid])

/-! ## Entries of a list -/

/-- The entry tells the name of a module: it stands alone in its clause, or has an alias behind single spaces. `rest` is
the text behind the entry. -/
def Entry.Told (keeps : Char → Bool) (rest name : Text) (e : Entry σ Ident) : Prop :=
  e.name.text = name ∧ isName name = true ∧ Blank (spelled e.before) ∧
    match e.as_ with
    | none => Blank (spelled e.behind) ∧ Blank (clauseOf keeps rest)
    | some a => Blank (Written.text a.before) ∧ [' '] <:+ Written.text a.before ∧ [' '] <+: Written.text a.behind

theorem Entry.Told.nameOf {rest name : Text} {e : Entry σ Ident} (keeps_ : Keeps σ keeps)
    (told : e.Told keeps rest name) : nameOf (clauseOf keeps (Written.text e ++ rest)) = name := by
  obtain ⟨rfl, is_, blank, form⟩ := told
  have solid : ∀ c ∈ e.name.text, isSpace c = false := fun c mem => isSpace_of_isIdent (e.name.letters c mem)
  have text_ : Written.text e ++ rest =
      spelled e.before ++ (e.name.text ++ (spelled e.as_.toList ++ (spelled e.behind ++ rest))) := by
    simp only [Written.text, List.append_assoc]
  rw [text_, clauseOf_append (keeps_.blank blank), clauseOf_append (keeps_.letters e.name)]
  cases as_ : e.as_ with
  | none =>
    rw [as_] at form
    rw [Option.toList_none, spelled_nil, List.nil_append, clauseOf_append (keeps_.blank form.1)]
    exact nameOf_plain blank solid (form.1.append form.2)
  | some a =>
    rw [as_] at form
    obtain ⟨blank', ⟨space, space_⟩, ⟨tail, tail_⟩⟩ := form
    have kept : ∀ c ∈ Written.text a.before, keeps c = true ∧ c ≠ ',' := keeps_.blank blank'
    have apart : keeps ' ' = true := (kept ' ' (space_ ▸ by simp)).1
    have more : ¬Blank (clauseOf keeps (Written.text a.behind ++ (a.name.text ++ (spelled e.behind ++ rest)))) :=
      keeps_.not_blank (a.behind.first :: a.behind.more) a.name _
    rw [← tail_, List.append_assoc, clauseOf_append (by simp [apart])] at more
    have whole : spelled (some a).toList ++ (spelled e.behind ++ rest) = Written.text a.before ++
        (['a', 's'] ++ (Written.text a.behind ++ (a.name.text ++ (spelled e.behind ++ rest)))) := by
      simp [Written.text]
    rw [whole, clauseOf_append kept, clauseOf_append (by simp [keeps_.ident, isIdent, isAscii, isLower]), ← tail_, List.append_assoc,
      clauseOf_append (by simp [apart]), ← space_]
    generalize clauseOf keeps (tail ++ (a.name.text ++ (spelled e.behind ++ rest))) = clause at more ⊢
    have some_ : ¬Blank clause := fun blank_ => more (Blank.append (by decide) blank_)
    have space_blank : Blank space := fun c mem => blank' c (space_ ▸ List.mem_append_left _ mem)
    have alias_ := nameOf_alias blank e.name.some_ solid space_blank some_
    rw [List.append_assoc]
    exact alias_

/-! ## The list -/

/-- An entry of the list tells the name of a module, and the match goes on over those before it. `rest` is the text
behind the list. -/
def toldIn (keeps : Char → Bool) (rest name : Text) : Entry σ Ident → List (Entry σ Ident) → Prop
  | e, [] => e.Told keeps rest name
  | e, e' :: more =>
    e.Told keeps (((e' :: more).flatMap fun e => ',' :: Written.text e) ++ rest) name ∨
      (∀ c ∈ Written.text e, keeps c = true) ∧ toldIn keeps rest name e' more

theorem exists_clause (keeps_ : Keeps σ keeps) {rest name : Text} {e : Entry σ Ident} {more : List (Entry σ Ident)}
    (told : toldIn keeps rest name e more) :
    ∃ clause ∈ List.splitOn ','
        ((Written.text e ++ ((more.flatMap fun e => ',' :: Written.text e) ++ rest)).takeWhile keeps),
      nameOf clause = name := by
  induction more generalizing e with
  | nil => exact ⟨_, clauseOf_mem _, told.nameOf keeps_⟩
  | cons e' more ih =>
    rcases told with told | ⟨kept, later⟩
    · exact ⟨_, clauseOf_mem _, told.nameOf keeps_⟩
    · obtain ⟨clause, mem, is_⟩ := ih later
      refine ⟨clause, ?_, is_⟩
      rw [List.takeWhile_append_of_pos kept, List.flatMap_cons, List.cons_append, List.cons_append,
        List.takeWhile_cons_of_pos keeps_.comma, List.splitOn_append_cons_self, List.append_assoc]
      exact List.mem_append_right _ mem

theorem toldIn.isName {rest name : Text} {e : Entry σ Ident} {more : List (Entry σ Ident)}
    (told : toldIn keeps rest name e more) : isName name = true := by
  induction more generalizing e with
  | nil => exact told.2.1
  | cons e' more ih =>
    rcases told with told | ⟨-, later⟩
    · exact told.2.1
    · exact ih later

theorem toldIn.front {rest name : Text} {e : Entry σ Ident} {more : List (Entry σ Ident)}
    (told : toldIn keeps rest name e more) : toldIn keeps rest name { e with before := [] } more := by
  cases more with
  | nil => exact ⟨told.1, told.2.1, blank_nil, told.2.2.2⟩
  | cons e' more =>
    rcases told with told | ⟨kept, later⟩
    · exact .inl ⟨told.1, told.2.1, blank_nil, told.2.2.2⟩
    · exact .inr ⟨fun c mem => kept c (List.mem_append_right _ mem), later⟩

end Clauses

theorem space_ne_nil (s : Space) : Written.text s ≠ [] := by
  cases s <;> exact List.cons_ne_nil _ _

theorem spelled_space_ne_nil {gap : List Space} (some_ : gap ≠ []) : spelled gap ≠ [] := by
  obtain ⟨s, gap, rfl⟩ := List.exists_cons_of_ne_nil some_
  exact List.append_ne_nil_of_left_ne_nil (space_ne_nil s) _

theorem gap_ne_nil (gap : Gap Space) : Written.text gap ≠ [] := spelled_space_ne_nil (List.cons_ne_nil _ _)

theorem tame_space {keeps : Char → Bool} (space : keeps ' ' = true) (tab : keeps '\t' = true)
    (formFeed : keeps (Char.ofNat 12) = true) (slash : keeps '\\' = true) (s : Space) : (∀ c ∈ Written.text s, isSpace c = true ∧ keeps c = true) ∨
      ∃ c t, Written.text s = c :: t ∧ isSpace c = false ∧ keeps c = true ∧ c ≠ ',' := by
  cases s with
  | space => exact .inl (by simpa [Written.text, isSpace] using space)
  | tab => exact .inl (by simpa [Written.text, isSpace] using tab)
  | formFeed => exact .inl (by simpa [Written.text, isSpace] using formFeed)
  | joined n => exact .inr ⟨'\\', n.text, rfl, rfl, slash, by decide⟩

theorem keeps_notClosing : Keeps Room notClosing where
  ident c is_ := decide_eq_true (ne_of_isIdent is_ rfl)
  comma := rfl
  tame s := by
    cases s with
    | space s => exact tame_space rfl rfl rfl rfl s
    | newline n => exact .inl (by cases n <;> simp [Written.text, Newline.text, isSpace, notClosing])
    | comment c n => exact .inr ⟨'#', c.text ++ n.text, rfl, rfl, rfl, by decide⟩

/-- Without parentheses the match goes on to the end of the line, a parenthesis or a comment. -/
theorem keeps_notStop : Keeps Space notStop where
  ident c is_ := by
    rw [notStop, decide_eq_true (ne_of_isIdent is_ rfl), decide_eq_true (ne_of_isIdent is_ rfl),
      decide_eq_true (ne_of_isIdent is_ rfl)]
    rfl
  comma := rfl
  tame := tame_space rfl rfl rfl rfl

/-! ## Statements -/

/-- What is imported from `lib` tells the name of a module. `follow` is the text behind the statement. -/
def Targets.Told (follow name : Text) : Targets → Prop
  | .star _ => False
  | .plain apart names => Blank (Written.text apart) ∧ Blank (spelled names.first.before) ∧
      toldIn notStop follow name names.first names.more
  | .inParens before names comma => before ≠ [] ∧ Blank (spelled before) ∧
      toldIn notClosing ((comma.toList.flatMap fun room => ',' :: spelled room) ++ ')' :: follow) name
        names.first names.more

/-- The name is the second one of the path, and stands right behind `lib` and a dot. -/
def Path.Told (name : Text) (path : Path) : Prop :=
  path.head.text = libWord ∧ isName name = true ∧
    match path.tail with
    | ([], [], n) :: _ => n.text = name
    | _ => False

/-- The statement tells the name of a module. `follow` is the text behind the statement. -/
def Statement.Told (u : Unicode) (follow name : Text) : Statement → Prop
  | .imports apart names => Blank (Written.text apart) ∧ Blank (spelled names.first.before) ∧
      names.first.name.Told name ∧ Stops (isWord u) follow
  | .fromImport (.absolute apart path behind) targets => Blank (Written.text apart) ∧ Blank (Written.text behind) ∧
      (path.tail = [] ∧ path.head.text = libWord ∧ targets.Told follow name ∨
        path.tail.length = 1 ∧ path.Told name)
  | .fromImport (.relative ..) _ => False

/-! ## What the pattern reads -/

section Reading
variable {u : Unicode} {follow name : Text}

variable {t : Text} {gap gap' : Text}

theorem stops_cons {p : Char → Bool} {c : Char} (not_ : p c = false) : Stops p (c :: t) := by
  rintro d ⟨⟩
  exact not_

theorem stops_dropWhile (p : Char → Bool) (t : Text) : Stops p (t.dropWhile p) := by
  intro c mem
  have not_ := List.head?_dropWhile_not p t
  rw [Option.mem_def.mp mem] at not_
  exact not_

theorem blanks_ways {b : Pattern} {gap rest : Text} (blank : Blank gap) (some_ : gap ≠ []) (stops : Stops isSpace rest)
    (refuses : b.Refuses isSpace) : (seq blanks b).ways (gap ++ rest) = b.ways rest :=
  seq_many blank stops (List.length_pos_iff.mpr some_) refuses

/-- `from lib import` is read with any whitespace between the words. -/
theorem fromLibImport_ways {rest : Pattern} (blank : Blank gap) (some_ : gap ≠ [])
    (blank' : Blank gap') (some' : gap' ≠ []) (t : Text) :
    (fromLibImport rest).ways (fromWord ++ (gap ++ (libWord ++ (gap' ++ (importWord ++ t))))) = rest.ways t := by
  rw [fromLibImport, seq_text, blanks_ways blank some_, seq_text, blanks_ways blank' some', seq_text]
  all_goals first | exact stops_cons rfl | exact refuses_text rfl

theorem mem_moduleNames_of_clause {k : Nat} (which : k = 1 ∨ k = 2) {clauses clause : Text} (is_ : isName name = true)
    (mem : clause ∈ clauses.splitOn ',') (clause_ : nameOf clause = name) : name ∈ moduleNames [(k, clauses)] := by
  have listed : name ∈ ((clauses.splitOn ',').map nameOf).filter nameRe :=
    List.mem_filter.mpr ⟨List.mem_map.mpr ⟨clause, mem, clause_⟩, by rw [nameRe, is_, Bool.true_or]⟩
  refine List.mem_append_left _ ?_
  rcases which with rfl | rfl
  · cases clauses with
    | nil => exact listed
    | cons c t => exact listed
  · exact listed

theorem mem_moduleNames_of_name {k : Nat} (which : k = 3 ∨ k = 4) (some_ : name ≠ []) :
    name ∈ moduleNames [(k, name)] := by
  refine List.mem_append_right _ ?_
  have alone : name ∈ [name].filter (· ≠ []) := by simp [some_]
  rcases which with rfl | rfl
  · exact alone
  · exact alone

def ReadsAt (u : Unicode) (t name : Text) : Prop :=
  ∃ found rest, ((IMPORT_RE u).ways t).head? = some (found, rest) ∧ name ∈ moduleNames found

theorem readsAt_inParens (blank : Blank gap) (some_ : gap ≠ []) (blank' : Blank gap')
    (some' : gap' ≠ []) {before : List Space} {names : Series Room Ident} {comma : Option (List Room)}
    (told : (Targets.inParens before names comma).Told follow name) :
    ReadsAt u (fromWord ++ (gap ++ (libWord ++ (gap' ++ (importWord ++
      (Written.text (Targets.inParens before names comma) ++ follow)))))) name := by
  obtain ⟨apart, space, listed⟩ := told
  obtain ⟨clause, mem, clause_⟩ := exists_clause keeps_notClosing listed
  generalize inside_ : Written.text names.first ++ ((names.more.flatMap fun e => ',' :: Written.text e) ++
    ((comma.toList.flatMap fun room => ',' :: spelled room) ++ ')' :: follow)) = inside at mem
  have text_ : Written.text (Targets.inParens before names comma) ++ follow =
      spelled before ++ (['('] ++ inside) := by
    simp [Written.text, ← inside_]
  have closing : ')' ∈ inside := by simp [← inside_]
  obtain ⟨run, rest, whole, free⟩ := List.eq_append_cons_of_mem closing
  have all : ∀ c ∈ run, notClosing c = true := fun c mem => decide_eq_true fun same => free (same ▸ mem)
  have stops : Stops notClosing (')' :: rest) := stops_cons rfl
  rw [whole, takeWhile_append_stops all stops] at mem
  refine ⟨[(1, run)], rest, head_alt_left ?_, mem_moduleNames_of_clause (.inl rfl) listed.isName mem clause_⟩
  rw [fromLibImport_ways blank some_ blank' some', text_, whole, blanks_ways space (spelled_space_ne_nil apart),
    seq_text]
  · have closed : ((Pattern.text [')']).ways (')' :: rest)).head? = some ([], rest) := by simp [ways]
    exact head_seq_group all stops (Nat.zero_le _) closed
  · exact stops_cons rfl
  · exact refuses_text rfl

theorem readsAt_plain (blank : Blank gap) (some_ : gap ≠ []) (blank' : Blank gap')
    (some' : gap' ≠ []) {apart : Gap Space} {names : Series Space Ident}
    (told : (Targets.plain apart names).Told follow name) :
    ReadsAt u (fromWord ++ (gap ++ (libWord ++ (gap' ++ (importWord ++
      (Written.text (Targets.plain apart names) ++ follow)))))) name := by
  obtain ⟨space, front, listed⟩ := told
  obtain ⟨clause, mem, clause_⟩ := exists_clause keeps_notStop listed.front
  generalize inside_ : Written.text { names.first with before := [] } ++
    ((names.more.flatMap fun e => ',' :: Written.text e) ++ follow) = inside at mem
  have text_ : Written.text (Targets.plain apart names) ++ follow =
      (Written.text apart ++ spelled names.first.before) ++ inside := by
    simp [Written.text, ← inside_]
  obtain ⟨c, t, first_⟩ := List.exists_cons_of_ne_nil names.first.name.some_
  have letter : isIdent c = true := names.first.name.letters c (first_ ▸ List.mem_cons_self)
  obtain ⟨tail, rfl⟩ : ∃ tail, inside = c :: tail := by
    rw [← inside_]
    simp [Written.text, first_]
  have some'' : Written.text apart ++ spelled names.first.before ≠ [] :=
    List.append_ne_nil_of_left_ne_nil (gap_ne_nil apart) _
  have stops : Stops isSpace (c :: tail) := stops_cons (isSpace_of_isIdent letter)
  have kept : notStop c = true := keeps_notStop.ident c letter
  refine ⟨[(2, (c :: tail).takeWhile notStop)], (c :: tail).dropWhile notStop, ?_,
    mem_moduleNames_of_clause (.inr rfl) listed.isName mem clause_⟩
  rw [IMPORT_RE, head_alt_right]
  · refine head_alt_left ?_
    rw [fromLibImport_ways blank some_ blank' some', text_]
    refine head_seq_many (space.append front) stops (List.length_pos_iff.mpr some'') ?_
    have long : 1 ≤ ((c :: tail).takeWhile notStop).length := by simp [kept]
    have read := head_group_many (k := 2) (fun _ mem => List.mem_takeWhile_imp mem)
      (stops_dropWhile notStop (c :: tail)) long
    rwa [List.takeWhile_append_dropWhile] at read
  · rw [fromLibImport_ways blank some_ blank' some', text_, blanks_ways (space.append front) some'' stops]
    · refine seq_text_nil fun starts => ?_
      exact ne_of_isIdent letter rfl (List.cons_prefix_cons.mp starts).1.symm
    · exact refuses_text rfl

theorem stops_gap (gap : Gap Space) (t : Text) : Stops (isWord u) (Written.text gap ++ t) := by
  obtain ⟨s, more⟩ := gap
  cases s <;> exact stops_cons rfl

theorem stops_spelled {gap : List Space} (stops : Stops (isWord u) t) :
    Stops (isWord u) (spelled gap ++ t) := by
  cases gap with
  | nil => exact stops
  | cons s more => exact stops_gap ⟨s, more⟩ t

/-- `from lib.a import`. -/
theorem readsAt_from {gap : Text} (blank : Blank gap) (some_ : gap ≠ []) (is_ : isName name = true)
    {behind : Gap Space} (blank' : Blank (Written.text behind)) (t : Text) :
    ReadsAt u (fromWord ++ (gap ++ (libDot ++ (name ++ (Written.text behind ++ (importWord ++ t)))))) name := by
  have none_ : ∀ rest, (fromLibImport rest).ways
      (fromWord ++ (gap ++ (libDot ++ (name ++ (Written.text behind ++ (importWord ++ t)))))) = [] := by
    intro rest
    rw [fromLibImport, seq_text, blanks_ways blank some_]
    · have dot : libDot ++ (name ++ (Written.text behind ++ (importWord ++ t))) =
          libWord ++ ('.' :: (name ++ (Written.text behind ++ (importWord ++ t)))) := rfl
      rw [dot, seq_text]
      exact seq_many_nil (stops_cons rfl) Nat.one_pos
    · exact stops_cons rfl
    · exact refuses_text rfl
  refine ⟨[(3, name)], t, ?_, mem_moduleNames_of_name (.inl rfl) (isAscii_of_isName is_).1⟩
  rw [IMPORT_RE, head_alt_right (none_ _), head_alt_right (none_ _)]
  refine head_alt_left ?_
  rw [seq_text, blanks_ways blank some_, seq_text]
  · have word : ((Pattern.text importWord).ways (importWord ++ t)).head? = some ([], t) := by simp [ways]
    exact head_seq_group (isWord_of_isName is_) (stops_gap behind _)
      (List.length_pos_iff.mpr (isAscii_of_isName is_).1)
      (head_seq_many blank' (stops_cons rfl) (List.length_pos_iff.mpr (gap_ne_nil behind)) word)
  · exact stops_cons rfl
  · exact refuses_text rfl

/-- `import lib.a`, and whatever comes behind. -/
theorem readsAt_import {gap : Text} (blank : Blank gap) (some_ : gap ≠ []) (is_ : isName name = true)
    (stops : Stops (isWord u) t) : ReadsAt u (importWord ++ (gap ++ (libDot ++ (name ++ t)))) name := by
  have none_ : ∀ rest, (seq (Pattern.text fromWord) rest).ways (importWord ++ (gap ++ (libDot ++ (name ++ t)))) = [] :=
    fun rest => seq_text_nil fun starts => absurd (List.cons_prefix_cons.mp starts).1 (by decide)
  refine ⟨[(4, name)], t, ?_, mem_moduleNames_of_name (.inr rfl) (isAscii_of_isName is_).1⟩
  rw [IMPORT_RE, fromLibImport, fromLibImport, head_alt_right (none_ _), head_alt_right (none_ _),
    head_alt_right (none_ _), seq_text, blanks_ways blank some_, seq_text]
  · exact head_group_many (isWord_of_isName is_) stops (List.length_pos_iff.mpr (isAscii_of_isName is_).1)
  · exact stops_cons rfl
  · exact refuses_text rfl

theorem stops_path (tail : List (List Space × List Space × Ident)) (stops : Stops (isWord u) t) :
    Stops (isWord u)
      ((tail.flatMap fun part => spelled part.1 ++ '.' :: (spelled part.2.1 ++ part.2.2.text)) ++ t) := by
  cases tail with
  | nil => exact stops
  | cons part tail =>
    rw [List.flatMap_cons, List.append_assoc, List.append_assoc]
    exact stops_spelled (stops_cons rfl)

theorem stops_entry (e : Entry Space Path) (stops : Stops (isWord u) t) :
    Stops (isWord u) (spelled e.as_.toList ++ (spelled e.behind ++ t)) := by
  cases e.as_ with
  | none => exact stops_spelled stops
  | some a =>
    have text_ : Written.text a = Written.text a.before ++ 'a' :: 's' :: (Written.text a.behind ++ a.name.text) := rfl
    rw [Option.toList_some, spelled_cons, text_, List.append_assoc, List.append_assoc]
    exact stops_gap a.before _

/-- A path that tells a name starts with `lib.` and the name. -/
theorem Path.Told.text {path : Path} (told : path.Told name) : ∃ n tail, path.tail = ([], [], n) :: tail ∧
    Written.text path = libDot ++ (name ++
      tail.flatMap fun part => spelled part.1 ++ '.' :: (spelled part.2.1 ++ part.2.2.text)) := by
  obtain ⟨head, -, second⟩ := told
  cases tail_ : path.tail with
  | nil => simp [tail_] at second
  | cons part tail =>
    obtain ⟨front, back, n⟩ := part
    rw [tail_] at second
    cases front with
    | cons => simp at second
    | nil =>
      cases back with
      | cons => simp at second
      | nil =>
        obtain rfl : n.text = name := second
        exact ⟨n, tail, rfl, by simp [Written.text, head, tail_, libWord, libDot]⟩

theorem stops_more (more : List (Entry Space Path)) (stops : Stops (isWord u) follow) :
    Stops (isWord u) ((more.flatMap fun e => ',' :: Written.text e) ++ follow) := by
  cases more with
  | nil => exact stops
  | cons e more => exact stops_cons rfl

theorem Statement.Told.readsAt {s : Statement} (told : s.Told u follow name) :
    ReadsAt u (Written.text s ++ follow) name := by
  cases s with
  | imports apart names =>
    obtain ⟨space, front, path, stops⟩ := told
    obtain ⟨n, tail, -, path_⟩ := path.text
    have some_ : Written.text apart ++ spelled names.first.before ≠ [] :=
      List.append_ne_nil_of_left_ne_nil (gap_ne_nil apart) _
    have read := readsAt_import (space.append front) some_ path.2.1
      (stops_path tail (stops_entry names.first (stops_more names.more stops)))
    have text_ : Written.text (Statement.imports apart names) = importWord ++ (Written.text apart ++
        ((spelled names.first.before ++ (Written.text names.first.name ++ (spelled names.first.as_.toList ++
          spelled names.first.behind))) ++ names.more.flatMap fun e => ',' :: Written.text e)) := rfl
    rw [text_, path_]
    simpa only [List.append_assoc] using read
  | fromImport origin targets =>
    cases origin with
    | relative before dot dots path => exact told.elim
    | absolute apart path behind =>
      have text_ : Written.text (Statement.fromImport (.absolute apart path behind) targets) =
          fromWord ++ ((Written.text apart ++ (Written.text path ++ Written.text behind)) ++
            (importWord ++ Written.text targets)) := rfl
      obtain ⟨space, space', ⟨tail_, head, listed⟩ | ⟨one, path_⟩⟩ := told
      · have whole : Written.text path = libWord := by
          simp [Written.text, head, tail_]
        rw [text_, whole]
        simp only [List.append_assoc]
        cases targets with
        | star => exact listed.elim
        | plain => exact readsAt_plain space (gap_ne_nil apart) space' (gap_ne_nil behind) listed
        | inParens => exact readsAt_inParens space (gap_ne_nil apart) space' (gap_ne_nil behind) listed
      · obtain ⟨n, tail, tail_, whole⟩ := path_.text
        obtain rfl : tail = [] := by simpa [tail_] using one
        rw [text_, whole]
        simp only [List.append_assoc, List.flatMap_nil, List.nil_append]
        exact readsAt_from space (gap_ne_nil apart) path_.2.1 space' _

end Reading

/-! ## What is read of a script -/

/-- The modules that a text imports, as `imported_modules` reads it. -/
def Reads (u : Unicode) (text name : Text) : Prop := name ∈ importedModules u text

theorem least_pos (u : Unicode) : 0 < (IMPORT_RE u).least := by
  simp [IMPORT_RE, fromLibImport, blanks, least, fromWord, libWord, importWord, libDot]

theorem reads_of_comes {u : Unicode} {t s name : Text} (comes : (IMPORT_RE u).Comes t s) (reads : ReadsAt u s name) :
    Reads u t name := by
  obtain ⟨found, rest, first, mem⟩ := reads
  exact mem_importedModules.mpr ⟨found, mem_finditer (least_pos u) comes first, mem⟩

end FreeSwarm.Library
