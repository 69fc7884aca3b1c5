import FreeSwarm.Foundation.FindAll
import FreeSwarm.Server.ToolCalls

/-!
# Tags

The patterns of opening tags, searched in a buffer that may break off inside one. A text is a tag of a
pattern when the pattern matches it whole, whatever follows, and matches nothing before its end.
-/

namespace FreeSwarm.Server

open FreeSwarm.Foundation

/-! ## The first match -/

/-- What the first match of a tag's pattern captures, and the text behind the match. -/
def searchTag {γ : Type*} (re : List Char → Option (γ × List Char)) :
    List Char → Option (γ × List Char)
  | [] => none
  | c :: text =>
    match re (c :: text) with
    | some found => some found
    | none => searchTag re text

/-- A text that a pattern matches whole: with any text behind it the match is the same, and no part
of it that breaks off earlier has a match. -/
structure IsTag {γ : Type*} (re : List Char → Option (γ × List Char)) (tag : List Char) (found : γ) :
    Prop where
  matched : ∀ rest, searchTag re (tag ++ rest) = some (found, rest)
  prompt : ∀ cut ext, tag = cut ++ ext → ext ≠ [] → searchTag re cut = none

variable {γ : Type*} {re : List Char → Option (γ × List Char)}

theorem IsTag.search {tag : List Char}
    {found : γ} (h : IsTag re tag found) {buf future rest : List Char}
    (whole : buf ++ future = tag ++ rest) :
    (∃ left, searchTag re buf = some (found, left) ∧ buf = tag ++ left ∧ left ++ future = rest) ∨
      searchTag re buf = none ∧ buf.length < tag.length := by
  by_cases inside : buf.length < tag.length
  · right
    obtain ⟨ext, same⟩ : buf <+: tag :=
      List.prefix_of_prefix_length_le (whole ▸ List.prefix_append buf future)
        (List.prefix_append tag rest) (by omega)
    refine ⟨h.prompt buf ext same.symm ?_, inside⟩
    rintro rfl
    rw [List.append_nil] at same
    rw [same] at inside
    omega
  · left
    obtain ⟨left, same⟩ : tag <+: buf :=
      List.prefix_of_prefix_length_le (whole ▸ List.prefix_append tag rest)
        (List.prefix_append buf future) (by omega)
    refine ⟨left, same ▸ h.matched left, same.symm, ?_⟩
    rw [← same, List.append_assoc] at whole
    exact List.append_cancel_left whole

theorem searchTag_eq_none {text : List Char}
    (none_ : ∀ t, t <:+ text → re t = none) : searchTag re text = none := by
  induction text with
  | nil => rfl
  | cons c text ih =>
    rw [searchTag, none_ _ List.suffix_rfl]
    exact ih fun t within => none_ t (within.trans (List.suffix_cons _ _))

theorem searchTag_of_match
    {text rest : List Char} {found : γ} (some_ : text ≠ []) (here : re text = some (found, rest)) :
    searchTag re text = some (found, rest) := by
  obtain ⟨c, text, rfl⟩ := List.exists_cons_of_ne_nil some_
  rw [searchTag, here]

theorem searchTag_skip {mark : List Char}
    (starts : ∀ text, ¬ mark <+: text → re text = none) {front text : List Char}
    (clear : ClearBelow mark front.length (front ++ text)) :
    searchTag re (front ++ text) = searchTag re text := by
  induction front with
  | nil => rfl
  | cons c front ih =>
    have here : re (c :: (front ++ text)) = none := starts _ (clear 0 (by simp))
    rw [List.cons_append, searchTag, here]
    refine ih fun d below => ?_
    have later := clear (d + 1) (by simp only [List.length_cons]; omega)
    rwa [List.cons_append, List.drop_succ_cons] at later

/-! ## A name up to a bracket -/

def bracketTag (mark text : List Char) : Option (List Char × List Char) :=
  if mark <+: text then splitSub ['>'] (text.drop mark.length) else none

section
variable {mark name tag : List Char}

theorem bracketTag_none {text : List Char} (free : '>' ∉ text) : bracketTag mark text = none := by
  rw [bracketTag]
  split_ifs
  · refine splitSub_eq_none fun occurs => free ?_
    exact List.mem_of_mem_drop (occurs.subset (List.mem_singleton_self _))
  · rfl

theorem getElem?_of_prefix_drop {c : Char} {text : List Char} {d : Nat}
    (occurs : [c] <+: text.drop d) : text[d]? = some c := by
  obtain ⟨tail, htail⟩ := occurs
  rw [← List.head?_drop, ← htail]
  rfl

theorem splitSub_char {c : Char} {front rest : List Char} (free : c ∉ front) :
    splitSub [c] (front ++ c :: rest) = some (front, rest) := by
  have clear : ClearBelow [c] front.length (front ++ [c] ++ rest) := by
    intro d below occurs
    have char := getElem?_of_prefix_drop occurs
    rw [List.append_assoc, List.getElem?_append_left below, List.getElem?_eq_getElem below] at char
    exact free (Option.some.inj char ▸ List.getElem_mem below)
  have split := splitSub_of_clear clear
  rwa [List.append_assoc] at split

theorem isTag_bracketTag_iff (some_ : mark ≠ []) (plain : '>' ∉ mark) :
    (IsTag (bracketTag mark) tag name ∧ mark <+: tag) ↔
      tag = mark ++ (name ++ ['>']) ∧ '>' ∉ name := by
  constructor
  · rintro ⟨h, rest, rfl⟩
    have whole := h.matched []
    rw [List.append_nil] at whole
    cases split : splitSub ['>'] rest with
    | none =>
      have free : '>' ∉ mark ++ rest := by
        rw [List.mem_append, not_or]
        refine ⟨plain, fun mem => splitSub_eq_none_iff.mp split ?_⟩
        obtain ⟨before, after, rfl⟩ := List.append_of_mem mem
        exact ⟨before, after, by simp⟩
      rw [searchTag_eq_none fun t within => bracketTag_none fun mem => free (within.subset mem)]
        at whole
      exact absurd whole (by simp)
    | some parts =>
      obtain ⟨left, right⟩ := parts
      have here : bracketTag mark (mark ++ rest) = some (left, right) := by
        rw [bracketTag, if_pos (List.prefix_append _ _), List.drop_left, split]
      rw [searchTag_of_match (by simp [some_]) here] at whole
      cases Option.some.inj whole
      obtain ⟨same, clear⟩ := splitSub_spec split
      rw [List.append_nil] at same
      refine ⟨by rw [same], fun mem => ?_⟩
      obtain ⟨before, after, cut⟩ := List.append_of_mem mem
      refine clear before.length ?_ ?_
      · rw [cut]
        simp
      · rw [same, cut, List.append_assoc, List.drop_left]
        exact ⟨after ++ ['>'], rfl⟩
  · rintro ⟨rfl, free⟩
    refine ⟨⟨fun rest => ?_, fun cut ext same more => ?_⟩, List.prefix_append _ _⟩
    · refine searchTag_of_match (by simp [some_]) ?_
      rw [bracketTag, if_pos (by rw [List.append_assoc]; exact List.prefix_append _ _),
        List.append_assoc, List.drop_left, List.append_assoc]
      exact splitSub_char free
    · have free' : '>' ∉ cut := by
        intro mem
        obtain ⟨ext', c, rfl⟩ := List.eq_nil_or_concat ext |>.resolve_left more
        rw [List.concat_eq_append, ← List.append_assoc, ← List.append_assoc] at same
        obtain ⟨same', -⟩ := List.append_inj' same rfl
        have mem' : '>' ∈ mark ++ name := by
          rw [same']
          exact List.mem_append_left _ mem
        rcases List.mem_append.mp mem' with h | h
        · exact plain h
        · exact free h
      exact searchTag_eq_none fun t within => bracketTag_none fun mem => free' (within.subset mem)

end

/-! ## A name in an attribute -/

def nameAttr : List Char := ['n', 'a', 'm', 'e', '=', '"']

/-- A tag at the start of a text: a marker, whitespace, the name in its attribute, and what has to
follow. -/
def attrTag {γ : Type*} (mark : List Char) (tail : List Char → Option (γ × List Char))
    (text : List Char) : Option ((List Char × γ) × List Char) :=
  if mark <+: text then
    let rest := text.drop mark.length
    if (lstrip rest).length < rest.length ∧ nameAttr <+: lstrip rest then
      match splitSub ['"'] ((lstrip rest).drop nameAttr.length) with
      | none => none
      | some (name, after) =>
        if name = [] then none
        else (tail after).map fun (found, rest) => ((name, found), rest)
    else none
  else none

/-- Whitespace and the bracket that ends a tag. -/
def closeBracket (after : List Char) : Option (Unit × List Char) :=
  match lstrip after with
  | '>' :: rest => some ((), rest)
  | _ => none

section
variable {γ : Type*} {mark name ending space : List Char} {tail : List Char → Option (γ × List Char)}
  {found : γ}

theorem attrTag_spec {text rest : List Char}
    (matched : attrTag mark tail text = some ((name, found), rest)) :
    ∃ space after, text = mark ++ (space ++ (nameAttr ++ (name ++ '"' :: after))) ∧ Blank space ∧
      space ≠ [] ∧ '"' ∉ name ∧ name ≠ [] ∧ tail after = some (found, rest) := by
  rw [attrTag] at matched
  split_ifs at matched with starts
  obtain ⟨rest', rfl⟩ := starts
  simp only [List.drop_left] at matched
  split_ifs at matched with attr
  obtain ⟨shorter, inside, hinside⟩ := attr
  obtain ⟨space, blank, whole⟩ := exists_lstrip rest'
  simp only [← hinside, List.drop_left] at matched
  cases split : splitSub ['"'] inside with
  | none => simp [split] at matched
  | some parts =>
    obtain ⟨name', after⟩ := parts
    simp only [split] at matched
    split_ifs at matched with some_
    cases tailed : tail after with
    | none => simp [tailed] at matched
    | some result =>
      obtain ⟨found', left⟩ := result
      simp only [tailed, Option.map_some, Option.some.injEq, Prod.mk.injEq] at matched
      obtain ⟨⟨rfl, rfl⟩, rfl⟩ := matched
      obtain ⟨same, clear⟩ := splitSub_spec split
      refine ⟨space, after, ?_, blank, ?_, fun mem => ?_, some_, tailed⟩
      · rw [whole, ← hinside, same]
        simp
      · rintro rfl
        rw [List.nil_append] at whole
        rw [← whole] at shorter
        omega
      · obtain ⟨front, back, cut⟩ := List.append_of_mem mem
        refine clear front.length (by rw [cut]; simp) ?_
        rw [same, cut, List.append_assoc, List.append_assoc, List.drop_left]
        exact ⟨back ++ (['"'] ++ after), rfl⟩

theorem attrTag_of_spec {after rest : List Char} (blank : Blank space) (some_ : space ≠ [])
    (free : '"' ∉ name) (named : name ≠ []) (tailed : tail after = some (found, rest)) :
    attrTag mark tail (mark ++ (space ++ (nameAttr ++ (name ++ '"' :: after)))) =
      some ((name, found), rest) := by
  have stripped : lstrip (space ++ (nameAttr ++ (name ++ '"' :: after))) =
      nameAttr ++ (name ++ '"' :: after) := by
    rw [lstrip_append_of_blank blank]
    exact lstrip_cons rfl _
  have positive := List.length_pos_iff.mpr some_
  rw [attrTag, if_pos (List.prefix_append _ _)]
  simp only [List.drop_left, stripped, splitSub_char free, if_neg named, tailed, Option.map_some]
  rw [if_pos ⟨by rw [@List.length_append _ space]; omega, List.prefix_append _ _⟩]

theorem isTag_attrTag (head : mark.head? = some '<') (once : '<' ∉ mark.tail) (blank : Blank space)
    (some_ : space ≠ []) (free : '"' ∉ name) (named : name ≠ [])
    (tailed : ∀ rest, tail (ending ++ rest) = some (found, rest))
    (grows : ∀ text found rest ext, tail text = some (found, rest) →
      tail (text ++ ext) = some (found, rest ++ ext))
    (low : '<' ∉ ending) (plain : '<' ∉ name ∨ '"' ∉ ending) :
    IsTag (attrTag mark tail) (mark ++ (space ++ (nameAttr ++ (name ++ '"' :: ending))))
      (name, found) := by
  have matched (rest : List Char) : attrTag mark tail
      (mark ++ (space ++ (nameAttr ++ (name ++ '"' :: (ending ++ rest))))) =
        some ((name, found), rest) :=
    attrTag_of_spec blank some_ free named (tailed rest)
  obtain ⟨mark', rfl⟩ : ∃ mark', mark = '<' :: mark' := by
    cases mark with
    | nil => exact absurd head (by simp)
    | cons c mark' => exact ⟨mark', by rw [Option.some.inj head]⟩
  rw [List.tail_cons] at once
  refine ⟨fun rest => ?_, fun cut ext same more => searchTag_eq_none fun t within => ?_⟩
  · refine searchTag_of_match (by simp) ?_
    simp only [List.append_assoc, List.cons_append]
    exact matched rest
  by_contra some'
  obtain ⟨⟨⟨name', found'⟩, rest⟩, here⟩ := Option.ne_none_iff_exists'.mp some'
  obtain ⟨space', after, rfl, blank', some'', free', named', tailed'⟩ := attrTag_spec here
  have grown := grows _ _ _ ext tailed'
  obtain ⟨front, hfront⟩ := within
  cases front with
  | nil =>
    -- The match starts where the tag does, and ends before it.
    rw [List.nil_append] at hfront
    have again := @attrTag_of_spec _ ('<' :: mark') _ _ _ _ _ _ blank' some'' free' named' grown
    have whole := matched []
    rw [List.append_nil, same, ← hfront] at whole
    simp only [List.append_assoc, List.cons_append] at whole again
    rw [again] at whole
    obtain ⟨-, empty⟩ := Prod.mk.inj (Option.some.inj whole)
    exact more (List.append_eq_nil_iff.mp empty).2
  | cons c front =>
    -- The match starts inside the name, behind which there are not enough quotes.
    rw [← hfront] at same
    simp only [List.append_assoc, List.cons_append, List.cons.injEq] at same
    obtain ⟨-, same⟩ := same
    have mem : '<' ∈ name := by
      have lead : '<' ∈ mark' ++ (space ++ (nameAttr ++ (name ++ '"' :: ending))) := by
        rw [same]
        simp
      simp only [List.mem_append, List.mem_cons] at lead
      rcases lead with h | h | h | h | h | h
      · exact absurd h once
      · exact absurd (blank _ h) (by decide)
      · exact absurd h (by decide)
      · exact h
      · exact absurd h (by decide)
      · exact absurd h low
    have quiet := plain.resolve_left (not_not_intro mem)
    have quotes : ∀ u v, mark' ++ (space ++ (nameAttr ++ (name ++ '"' :: ending))) =
        u ++ '<' :: v → v.count '"' ≤ 1 := by
      intro u v cut
      have early : '<' ∉ mark' ++ (space ++ nameAttr) := by
        simp only [List.mem_append, not_or]
        exact ⟨once, fun h => absurd (blank _ h) (by decide), by decide⟩
      rw [← List.append_assoc space, ← List.append_assoc mark'] at cut
      have total : (name ++ '"' :: ending).count '"' = 1 := by
        rw [List.count_append, List.count_cons_self, List.count_eq_zero.mpr free,
          List.count_eq_zero.mpr quiet]
      rcases List.append_eq_append_iff.mp cut with ⟨a, rfl, rest_⟩ | ⟨a, whole, rest_⟩
      · rw [rest_, List.count_append, List.count_cons_of_ne (by decide)] at total
        omega
      · cases a with
        | nil =>
          rw [List.nil_append] at rest_
          rw [← rest_, List.count_cons_of_ne (by decide)] at total
          exact total.le
        | cons c' a =>
          obtain ⟨rfl, -⟩ := List.cons.inj rest_
          exact absurd (whole ▸ by simp) early
    have few := quotes _ _ same
    have many : 2 ≤ (mark' ++ (space' ++ (nameAttr ++ (name' ++ '"' :: (after ++ ext))))).count
        '"' := by
      have one : nameAttr.count '"' = 1 := by decide
      simp only [List.count_append, List.count_cons_self, one]
      omega
    omega

theorem closeBracket_ending (blank : Blank space) (rest : List Char) :
    closeBracket (space ++ ['>'] ++ rest) = some ((), rest) := by
  rw [closeBracket, List.append_assoc, lstrip_append_of_blank blank]
  rfl

theorem closeBracket_append {text rest : List Char} {found : Unit}
    (matched : closeBracket text = some (found, rest)) (ext : List Char) :
    closeBracket (text ++ ext) = some (found, rest ++ ext) := by
  rw [closeBracket] at matched
  split at matched
  · next rest' stripped =>
    obtain ⟨-, rfl⟩ := Prod.mk.inj (Option.some.inj matched)
    rw [closeBracket, lstrip_append_of_cons stripped, stripped]
    rfl
  · exact absurd matched (by simp)

variable {re : List Char → Option (γ × List Char)}

theorem searchTag_map {δ : Type*} (h : γ → δ)
    (text : List Char) :
    searchTag (fun text => (re text).map fun (found, rest) => (h found, rest)) text =
      (searchTag re text).map fun (found, rest) => (h found, rest) := by
  induction text with
  | nil => rfl
  | cons c text ih =>
    rw [searchTag, searchTag]
    cases re (c :: text) with
    | none => exact ih
    | some result => rfl

theorem IsTag.map {δ : Type*} {tag : List Char}
    (isTag : IsTag re tag found) (h : γ → δ) :
    IsTag (fun text => (re text).map fun (found, rest) => (h found, rest)) tag (h found) where
  matched rest := by rw [searchTag_map, isTag.matched, Option.map_some]
  prompt cut ext same more := by rw [searchTag_map, isTag.prompt cut ext same more, Option.map_none]

end

/-! ## A tag and what it encloses -/

/-- The first tag of a pattern, and the text behind it up to the marker that closes it. -/
def tagged {γ : Type*} (re : List Char → Option (γ × List Char)) (close text : List Char) :
    Option ((γ × List Char) × List Char) :=
  match searchTag re text with
  | none => none
  | some (found, inside) => (splitSub close inside).map fun (body, rest) => ((found, body), rest)

/-- A pattern of tags: it starts with a marker, and what is left behind a match is no longer than the
text. -/
structure TagPattern {γ : Type*} (mark : List Char) (re : List Char → Option (γ × List Char)) :
    Prop where
  starts : ∀ text, ¬ mark <+: text → re text = none
  shortens : ∀ text found rest, re text = some (found, rest) → rest.length ≤ text.length

section
variable {γ : Type*} {mark close front body tag : List Char}
  {re : List Char → Option (γ × List Char)} {found : γ}

theorem TagPattern.searchTag_length (pattern : TagPattern mark re) {text rest : List Char}
    (matched : searchTag re text = some (found, rest)) : rest.length ≤ text.length := by
  induction text with
  | nil => exact absurd matched (by simp [searchTag])
  | cons c text ih =>
    rw [searchTag] at matched
    split at matched
    · next result here =>
      rw [matched] at here
      exact pattern.shortens _ _ _ here
    · exact (ih matched).trans (Nat.le_succ _)

theorem TagPattern.tagged_consumes (pattern : TagPattern mark re) (some_ : close ≠ []) :
    Consumes (tagged re close) := by
  intro text result rest matched
  rw [tagged] at matched
  split at matched
  · exact absurd matched (by simp)
  · next found inside here =>
    obtain ⟨⟨body, rest'⟩, split, same⟩ := Option.map_eq_some_iff.mp matched
    obtain ⟨-, rfl⟩ := Prod.mk.inj same
    have whole := splitSub_length split
    have shorter := pattern.searchTag_length here
    have positive := List.length_pos_iff.mpr some_
    omega

theorem TagPattern.tagged_skip (pattern : TagPattern mark re) {text : List Char}
    (clear : ClearBelow mark front.length (front ++ text)) :
    tagged re close (front ++ text) = tagged re close text := by
  rw [tagged, searchTag_skip pattern.starts clear, tagged]

theorem TagPattern.tagged_none (pattern : TagPattern mark re) (free : ¬ mark <:+: front) :
    tagged re close front = none := by
  have clear : ClearBelow mark front.length (front ++ []) := by
    rw [List.append_nil]
    exact clearBelow_of_free free _
  have skipped : tagged re close (front ++ []) = tagged re close [] := pattern.tagged_skip clear
  rw [List.append_nil] at skipped
  exact skipped

theorem TagPattern.tagged_ahead {lead : Char} {toks : List (List Char)} (pattern : TagPattern mark re)
    (isTag : IsTag re tag found) (opens : mark <+: tag) (headed : Headed lead toks)
    (memMark : mark ∈ toks) (free : ∀ tok ∈ toks, ¬ tok <:+: front) (headed' : Headed lead [close])
    (free' : ∀ tok ∈ [close], ¬ tok <:+: body) (rest : List Char) :
    tagged re close (front ++ (tag ++ (body ++ (close ++ rest)))) = some ((found, body), rest) := by
  obtain ⟨tagRest, rfl⟩ := opens
  have clear : ClearBelow mark front.length
      (front ++ (mark ++ tagRest ++ (body ++ (close ++ rest)))) := by
    rw [List.append_assoc mark]
    exact headed.clear_ahead memMark free memMark
  rw [pattern.tagged_skip clear, tagged, isTag.matched]
  simp only
  rw [headed'.splitSub_ahead (List.mem_singleton_self _) free' rest, Option.map_some]

theorem TagPattern.tagged_over {lead : Char} {toks : List (List Char)} {tok : List Char}
    (pattern : TagPattern mark re) (headed : Headed lead toks) (memMark : mark ∈ toks)
    (mem : tok ∈ toks) (other : mark ≠ tok) (free : ∀ tok ∈ toks, ¬ tok <:+: front)
    (rest : List Char) :
    tagged re close (front ++ (tok ++ rest)) = tagged re close rest := by
  have clear := @Headed.clear_ahead _ _ _ _ _ _ rest headed mem free memMark
  rw [pattern.tagged_skip clear]
  refine pattern.tagged_skip fun d below occurs => ?_
  rcases Nat.eq_zero_or_pos d with rfl | later
  · rw [List.drop_zero] at occurs
    rcases List.prefix_or_prefix_of_prefix occurs (List.prefix_append tok rest) with h | h
    · exact other (headed.apart _ memMark _ mem h)
    · exact other (headed.apart _ mem _ memMark h).symm
  · have here : tok <+: (tok ++ rest).drop 0 := by
      rw [List.drop_zero]
      exact List.prefix_append _ _
    exact headed.no_overlap mem memMark here occurs later (by omega)

theorem findAll_congr {β : Type*} {next : List Char → Option (β × List Char)}
    (consumes : Consumes next) {text text' : List Char} (same : next text = next text') :
    findAll next text = findAll next text' := by
  cases first : next text' with
  | none => rw [findAll_none (same.trans first), findAll_none first]
  | some result =>
    obtain ⟨b, rest⟩ := result
    rw [findAll_some consumes (same.trans first), findAll_some consumes first]

theorem tagPattern_attrTag (mark : List Char) (tail : List Char → Option (γ × List Char))
    (shortens : ∀ text found rest, tail text = some (found, rest) → rest.length ≤ text.length) :
    TagPattern mark (attrTag mark tail) where
  starts text absent := by rw [attrTag, if_neg absent]
  shortens text found rest matched := by
    obtain ⟨space, after, rfl, -, -, -, -, tailed⟩ := attrTag_spec matched
    have shorter := shortens _ _ _ tailed
    simp only [List.length_append, List.length_cons]
    omega

theorem closeBracket_length {text rest : List Char} {found : Unit}
    (matched : closeBracket text = some (found, rest)) : rest.length ≤ text.length := by
  rw [closeBracket] at matched
  split at matched
  · next rest' stripped =>
    obtain ⟨-, rfl⟩ := Prod.mk.inj (Option.some.inj matched)
    have shorter := (List.dropWhile_suffix (l := text) isSpace).length_le
    rw [← lstrip, stripped, List.length_cons] at shorter
    omega
  · exact absurd matched (by simp)

def nameTag (mark text : List Char) : Option (List Char × List Char) :=
  (attrTag mark closeBracket text).map fun (found, rest) => (found.1, rest)

theorem tagPattern_nameTag (mark : List Char) : TagPattern mark (nameTag mark) where
  starts text absent := by
    rw [nameTag, (tagPattern_attrTag mark closeBracket fun _ _ _ => closeBracket_length).starts _
      absent]
    rfl
  shortens text found rest matched := by
    obtain ⟨⟨found', rest'⟩, here, same⟩ := Option.map_eq_some_iff.mp matched
    obtain ⟨-, rfl⟩ := Prod.mk.inj same
    exact (tagPattern_attrTag mark closeBracket fun _ _ _ => closeBracket_length).shortens _ _ _ here

theorem isTag_nameTag {name space space' : List Char} (head : mark.head? = some '<')
    (once : '<' ∉ mark.tail) (blank : Blank space) (some_ : space ≠ []) (free : '"' ∉ name)
    (named : name ≠ []) (blank' : Blank space') :
    IsTag (nameTag mark)
      (mark ++ (space ++ (nameAttr ++ (name ++ '"' :: (space' ++ ['>']))))) name := by
  have low (c : Char) (no : isSpace c = false) (other : c ≠ '>') : c ∉ space' ++ ['>'] := by
    rw [List.mem_append, List.mem_singleton, not_or]
    exact ⟨fun mem => by simp [blank' c mem] at no, other⟩
  exact (isTag_attrTag head once blank some_ free named (closeBracket_ending blank')
    (fun _ _ _ ext matched => closeBracket_append matched ext) (low '<' rfl (by decide))
    (.inr (low '"' rfl (by decide)))).map Prod.fst

end

end FreeSwarm.Server
