import FreeSwarm.Foundation.Markers

/-!
# The earliest of several markers

Where the first marker of a set stands in a text, and which it is. The markers of a set are `Headed`
when all start with a character that none of them has anywhere else: two of them never overlap, so
that a marker found first stays the first when the text grows.
-/

namespace FreeSwarm.Foundation

variable {α : Type*}

/-- Markers that start with a character which none of them has anywhere else. -/
structure Headed (lead : α) (toks : List (List α)) : Prop where
  head : ∀ tok ∈ toks, tok.head? = some lead
  once : ∀ tok ∈ toks, lead ∉ tok.tail
  apart : ∀ tok ∈ toks, ∀ tok' ∈ toks, tok <+: tok' → tok = tok'

theorem Headed.ne_nil {lead : α} {toks : List (List α)} {tok : List α} (headed : Headed lead toks)
    (mem : tok ∈ toks) : tok ≠ [] := by
  rintro rfl
  exact absurd (headed.head _ mem) (by simp)

theorem Headed.no_overlap {lead : α} {toks : List (List α)} {text tok tok' : List α} {d d' : Nat}
    (headed : Headed lead toks) (mem : tok ∈ toks) (mem' : tok' ∈ toks) (here : tok <+: text.drop d)
    (there : tok' <+: text.drop d') (later : d < d') (within : d' < d + tok.length) : False := by
  refine headed.once tok mem ?_
  obtain ⟨tail, rfl⟩ : ∃ tail, tok' = lead :: tail := by
    cases tok' with
    | nil => exact absurd (headed.head _ mem') (by simp)
    | cons c tail => exact ⟨tail, by rw [Option.some.inj (headed.head _ mem')]⟩
  have char : text[d']? = some lead := by
    obtain ⟨rest, hrest⟩ := there
    rw [← List.head?_drop, ← hrest]
    rfl
  have inside : tok[d' - d]? = some lead := by
    obtain ⟨rest, hrest⟩ := here
    have whole : (text.drop d)[d' - d]? = some lead := by
      rw [List.getElem?_drop, ← char]
      congr 1
      omega
    rwa [← hrest, List.getElem?_append_left (by omega)] at whole
  have position : tok.tail[d' - d - 1]? = some lead := by
    rw [← List.drop_one, List.getElem?_drop, ← inside]
    congr 1
    omega
  exact List.mem_of_getElem? position

variable [DecidableEq α]

/-- The first of the occurrences found so far and the one of the next marker. -/
def earlier (text : List α) (best : Option (Nat × List α)) (tok : List α) :
    Option (Nat × List α) :=
  match findSub tok text with
  | none => best
  | some pos =>
    match best with
    | none => some (pos, tok)
    | some (bestPos, _) => if pos < bestPos then some (pos, tok) else best

/-- The position of the first marker in a text, and the marker. -/
def earliest (toks : List (List α)) (text : List α) : Option (Nat × List α) :=
  toks.foldl (earlier text) none

section
variable {lead : α} {toks : List (List α)} {text tok tok' : List α} {pos : Nat}

/-- The first of two occurrences is one of them, and no later than either. -/
theorem earlier_cases (text : List α) (best : Option (Nat × List α)) (tok : List α) :
    (earlier text best tok = best ∧
        ∀ pos, findSub tok text = some pos → ∃ found ∈ best, found.1 ≤ pos) ∨
      ∃ pos, findSub tok text = some pos ∧ earlier text best tok = some (pos, tok) ∧
        ∀ found ∈ best, pos < found.1 := by
  rw [earlier]
  cases findSub tok text with
  | none => exact .inl ⟨rfl, fun pos absurd_ => absurd absurd_ (by simp)⟩
  | some pos =>
    cases best with
    | none => exact .inr ⟨pos, rfl, rfl, by simp⟩
    | some found =>
      obtain ⟨bestPos, bestTok⟩ := found
      simp only
      split_ifs with before
      · exact .inr ⟨pos, rfl, rfl, by simpa using before⟩
      · exact .inl ⟨rfl, fun pos' same => ⟨_, rfl, by
          obtain rfl : pos = pos' := Option.some.inj same
          exact not_lt.mp before⟩⟩

theorem foldl_earlier (text : List α) (toks : List (List α)) (best : Option (Nat × List α)) :
    (toks.foldl (earlier text) best = best ∨
        ∃ pos, ∃ tok ∈ toks, findSub tok text = some pos ∧
          toks.foldl (earlier text) best = some (pos, tok)) ∧
      (∀ found ∈ best, ∃ found' ∈ toks.foldl (earlier text) best, found'.1 ≤ found.1) ∧
      ∀ tok ∈ toks, ∀ pos, findSub tok text = some pos →
        ∃ found ∈ toks.foldl (earlier text) best, found.1 ≤ pos := by
  induction toks generalizing best with
  | nil => exact ⟨.inl rfl, fun found mem => ⟨found, mem, le_rfl⟩, fun tok mem => absurd mem (by simp)⟩
  | cons tok toks ih =>
    obtain ⟨source, old, new⟩ := ih (earlier text best tok)
    rw [List.foldl_cons]
    have here : (∀ found ∈ best, ∃ found' ∈ earlier text best tok, found'.1 ≤ found.1) ∧
        ∀ pos, findSub tok text = some pos → ∃ found ∈ earlier text best tok, found.1 ≤ pos := by
      rcases earlier_cases text best tok with ⟨same, bound⟩ | ⟨pos, at_, same, first⟩
      · rw [same]
        exact ⟨fun found mem => ⟨found, mem, le_rfl⟩, bound⟩
      · rw [same]
        refine ⟨fun found mem => ⟨_, rfl, (first found mem).le⟩, fun pos' found => ⟨_, rfl, ?_⟩⟩
        exact (Option.some.inj (at_.symm.trans found)).le
    refine ⟨?_, ?_, ?_⟩
    · rcases source with same | ⟨pos, tok', mem, at_, same⟩
      · rcases earlier_cases text best tok with ⟨kept, -⟩ | ⟨pos, at_, taken, -⟩
        · exact .inl (same.trans kept)
        · exact .inr ⟨pos, tok, List.mem_cons_self, at_, same.trans taken⟩
      · exact .inr ⟨pos, tok', List.mem_cons_of_mem _ mem, at_, same⟩
    · intro found mem
      obtain ⟨found', mem', bound⟩ := here.1 found mem
      obtain ⟨found'', mem'', bound'⟩ := old found' mem'
      exact ⟨found'', mem'', bound'.trans bound⟩
    · intro tok' mem pos at_
      rcases List.mem_cons.mp mem with rfl | mem
      · obtain ⟨found, mem', bound⟩ := here.2 pos at_
        obtain ⟨found', mem'', bound'⟩ := old found mem'
        exact ⟨found', mem'', bound'.trans bound⟩
      · exact new tok' mem pos at_

/-- What is found is a marker where it first stands, and none stands before it. -/
theorem earliest_spec (found : earliest toks text = some (pos, tok)) :
    tok ∈ toks ∧ findSub tok text = some pos ∧ ∀ tok' ∈ toks, ClearBelow tok' pos text := by
  obtain ⟨source, -, bound⟩ := foldl_earlier text toks none
  rw [← earliest, found] at source bound
  rcases source with absurd_ | ⟨pos', tok', mem, at_, same⟩
  · exact absurd absurd_ (by simp)
  · cases Option.some.inj same
    refine ⟨mem, at_, fun other mem' d below occurs => ?_⟩
    cases at' : findSub other text with
    | none => exact findSub_eq_none_iff.mp at' (isInfix_iff_exists_drop.mpr ⟨d, occurs⟩)
    | some first =>
      obtain ⟨found', same, least⟩ := bound other mem' first at'
      cases same
      refine findSub_least at' d ?_ occurs
      exact below.trans_le least

theorem earliest_eq_none_iff : earliest toks text = none ↔ ∀ tok ∈ toks, ¬ tok <:+: text := by
  obtain ⟨source, -, bound⟩ := foldl_earlier text toks none
  rw [← earliest] at source bound
  constructor
  · intro absent tok mem occurs
    cases at_ : findSub tok text with
    | none => exact findSub_eq_none_iff.mp at_ occurs
    | some pos =>
      obtain ⟨found, mem', -⟩ := bound tok mem pos at_
      rw [absent] at mem'
      exact absurd mem' (by simp)
  · intro free
    rcases source with absent | ⟨pos, tok, mem, at_, -⟩
    · exact absent
    · exact absurd (isInfix_iff_exists_drop.mpr ⟨pos, findSub_occurs at_⟩) (free tok mem)

/-- Where a marker stands before which none starts, the first one does. -/
theorem earliest_of_clear (mem : tok ∈ toks) (here : tok <+: text.drop pos)
    (clear : ∀ tok' ∈ toks, ClearBelow tok' pos text) :
    ∃ tok', earliest toks text = some (pos, tok') := by
  cases found : earliest toks text with
  | none =>
    exact absurd (isInfix_iff_exists_drop.mpr ⟨pos, here⟩) (earliest_eq_none_iff.mp found tok mem)
  | some first =>
    obtain ⟨pos', tok'⟩ := first
    obtain ⟨mem', at', clear'⟩ := earliest_spec found
    have atLeast : pos ≤ pos' :=
      not_lt.mp fun before => clear tok' mem' pos' before (findSub_occurs at')
    have atMost : pos' ≤ pos := not_lt.mp fun before => clear' tok mem pos before here
    obtain rfl := le_antisymm atLeast atMost
    exact ⟨tok', rfl⟩

theorem Headed.earliest_eq (headed : Headed lead toks) (mem : tok ∈ toks)
    (here : tok <+: text.drop pos) (clear : ∀ tok' ∈ toks, ClearBelow tok' pos text) :
    earliest toks text = some (pos, tok) := by
  obtain ⟨tok', found⟩ := earliest_of_clear mem here clear
  obtain ⟨mem', at', -⟩ := earliest_spec found
  rcases List.prefix_or_prefix_of_prefix here (findSub_occurs at') with h | h
  · rw [found, headed.apart tok mem tok' mem' h]
  · rw [found, headed.apart tok' mem' tok mem h]

theorem Headed.earliest_append (headed : Headed lead toks)
    (found : earliest toks text = some (pos, tok)) (ext : List α) :
    earliest toks (text ++ ext) = some (pos, tok) := by
  obtain ⟨mem, at_, clear⟩ := earliest_spec found
  have here := findSub_occurs at_
  have inside := findSub_le at_
  have grown : tok <+: (text ++ ext).drop pos := by
    rw [List.drop_append_of_le_length inside]
    exact here.trans (List.prefix_append _ _)
  have room := here.length_le
  rw [List.length_drop] at room
  refine headed.earliest_eq mem grown fun tok' mem' d below occurs => ?_
  by_cases fits : d + tok'.length ≤ text.length
  · refine clear tok' mem' d below ?_
    rw [List.drop_append_of_le_length (by omega)] at occurs
    exact List.prefix_of_prefix_length_le occurs (List.prefix_append _ _)
      (by simp only [List.length_drop]; omega)
  · -- The other marker would reach over the first one.
    have positive := List.length_pos_iff.mpr (headed.ne_nil mem)
    exact headed.no_overlap mem' mem occurs grown below (by omega)

end

theorem partialLen_append_le (toks : List (List α)) (text ext : List α) :
    partialLen toks (text ++ ext) ≤ partialLen toks text + ext.length := by
  rcases partialLen_cases toks (text ++ ext) with none | ⟨tok, mem, bound, inside, ends⟩
  · omega
  generalize partialLen toks (text ++ ext) = n at bound inside ends ⊢
  by_cases short : n ≤ ext.length
  · omega
  · have kept : tok.take (n - ext.length) <:+ text := by
      have size : (tok.take n).length = n := by
        rw [List.length_take]
        omega
      obtain ⟨front, whole⟩ := ends
      have same : tok.take n = (tok.take n).take (n - ext.length) ++ ext := by
        have last : ext <:+ tok.take n :=
          List.suffix_of_suffix_length_le ⟨text, rfl⟩ ⟨front, whole⟩ (by omega)
        obtain ⟨first, hfirst⟩ := last
        have count := congrArg List.length hfirst
        rw [List.length_append, size] at count
        rw [← hfirst, List.take_left' (by omega)]
      rw [same, ← List.append_assoc] at whole
      have text_ := List.append_cancel_right whole
      rw [List.take_take, Nat.min_eq_left (by omega)] at text_
      exact ⟨front, text_⟩
    rw [List.length_append] at inside
    have held := le_partialLen mem (by omega) (by omega) kept
    omega

end FreeSwarm.Foundation
