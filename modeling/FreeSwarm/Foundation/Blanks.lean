import Mathlib.Data.List.DropRight
import FreeSwarm.Foundation.Markers

/-!
# Blanks around a text

Trimming a text at its ends. The characters that count as blank are those Python counts as
whitespace, in its string methods as in its regular expressions.
-/

namespace FreeSwarm.Foundation

def isSpace (c : Char) : Bool :=
  (9 ≤ c.toNat && c.toNat ≤ 13) || (28 ≤ c.toNat && c.toNat ≤ 32) || c.toNat = 0x85 ||
  c.toNat = 0xA0 || c.toNat = 0x1680 || (0x2000 ≤ c.toNat && c.toNat ≤ 0x200A) ||
  c.toNat = 0x2028 || c.toNat = 0x2029 || c.toNat = 0x202F || c.toNat = 0x205F ||
  c.toNat = 0x3000

variable (text : List Char)

def Blank : Prop := ∀ c ∈ text, isSpace c = true

instance (text : List Char) : Decidable (Blank text) :=
  List.decidableBAll (fun c => isSpace c = true) text

/-- The text without the whitespace before it. -/
def lstrip : List Char := text.dropWhile isSpace

/-- The text without the whitespace after it. -/
def rstrip : List Char := text.rdropWhile isSpace

/-- The text without the whitespace around it. -/
def strip : List Char := rstrip (lstrip text)

theorem Blank.append {text text' : List Char} (h : Blank text) (h' : Blank text') :
    Blank (text ++ text') := by
  intro c mem
  rcases List.mem_append.mp mem with mem | mem
  · exact h c mem
  · exact h' c mem

@[simp] theorem blank_nil : Blank [] := fun _ mem => absurd mem List.not_mem_nil

variable (text : List Char) {blank : List Char}

theorem exists_lstrip : ∃ blank, Blank blank ∧ text = blank ++ lstrip text :=
  ⟨text.takeWhile isSpace, fun _ mem => List.mem_takeWhile_imp mem,
    (List.takeWhile_append_dropWhile).symm⟩

theorem exists_rstrip : ∃ blank, Blank blank ∧ text = rstrip text ++ blank :=
  ⟨text.rtakeWhile isSpace, fun _ mem => List.mem_rtakeWhile_imp mem,
    List.rdropWhile_append_rtakeWhile.symm⟩

theorem lstrip_append_of_blank (h : Blank blank) (text : List Char) :
    lstrip (blank ++ text) = lstrip text := by
  induction blank with
  | nil => rfl
  | cons c blank ih =>
    rw [lstrip, List.cons_append, List.dropWhile_cons_of_pos (h c List.mem_cons_self)]
    exact ih fun c' mem => h c' (List.mem_cons_of_mem _ mem)

theorem rstrip_append_of_blank (h : Blank blank) (text : List Char) :
    rstrip (text ++ blank) = rstrip text := by
  have reversed : Blank blank.reverse := fun c mem => h c (List.mem_reverse.mp mem)
  have front := lstrip_append_of_blank reversed text.reverse
  rw [rstrip, List.rdropWhile, List.reverse_append]
  exact congrArg List.reverse front

theorem lstrip_eq_nil (h : Blank blank) : lstrip blank = [] := by
  have whole := lstrip_append_of_blank h []
  rwa [List.append_nil] at whole

theorem lstrip_append_of_cons {text : List Char} {c : Char} {rest : List Char}
    (stays : lstrip text = c :: rest) (text' : List Char) :
    lstrip (text ++ text') = lstrip text ++ text' := by
  obtain ⟨blank, h, whole⟩ := exists_lstrip text
  have solid : isSpace c ≠ true := by
    have first := List.head?_dropWhile_not isSpace text
    rw [← lstrip, stays] at first
    simpa using first
  rw [whole, List.append_assoc, lstrip_append_of_blank h, lstrip_append_of_blank h, stays,
    List.cons_append, lstrip, lstrip, List.dropWhile_cons_of_neg solid,
    List.dropWhile_cons_of_neg solid]
  rfl

theorem lstrip_cons {c : Char} (solid : isSpace c = false) (text : List Char) :
    lstrip (c :: text) = c :: text := List.dropWhile_cons_of_neg (by simp [solid])

theorem rstrip_append {front : List Char} (solid : ∀ c ∈ front.getLast?, isSpace c = false)
    (text : List Char) : rstrip (front ++ text) = front ++ rstrip text := by
  rw [rstrip, rstrip, List.rdropWhile, List.reverse_append, List.rdropWhile, List.dropWhile_append]
  split_ifs with all
  · have kept : front.reverse.dropWhile isSpace = front.reverse := by
      cases same : front.reverse with
      | nil => rfl
      | cons c rest =>
        have last : front.getLast? = some c := by
          rw [List.getLast?_eq_head?_reverse, same]
          rfl
        exact List.dropWhile_cons_of_neg (by simp [solid c last])
    rw [kept, List.reverse_reverse, List.isEmpty_iff.mp all, List.reverse_nil, List.append_nil]
  · rw [List.reverse_append, List.reverse_reverse]

@[simp] theorem strip_append_of_blank (h : Blank blank) (text : List Char) :
    strip (blank ++ text) = strip text := by
  rw [strip, lstrip_append_of_blank h, strip]

theorem strip_of_append_blank (h : Blank blank) (text : List Char) :
    strip (text ++ blank) = strip text := by
  rw [strip, strip]
  cases trimmed : lstrip text with
  | nil =>
    obtain ⟨front, hfront, whole⟩ := exists_lstrip text
    rw [trimmed, List.append_nil] at whole
    rw [whole, lstrip_append_of_blank hfront, lstrip_eq_nil h]
  | cons c rest =>
    rw [lstrip_append_of_cons trimmed, trimmed, rstrip_append_of_blank h]

theorem strip_rstrip : strip (rstrip text) = strip text := by
  obtain ⟨blank, h, whole⟩ := exists_rstrip text
  conv_rhs => rw [whole, strip_of_append_blank h]

theorem strip_lstrip : strip (lstrip text) = strip text := by
  obtain ⟨blank, h, whole⟩ := exists_lstrip text
  conv_rhs => rw [whole, strip_append_of_blank h]

theorem strip_strip : strip (strip text) = strip text :=
  (strip_rstrip (lstrip text)).trans (strip_lstrip text)

theorem exists_strip :
    ∃ before after, Blank before ∧ Blank after ∧ text = before ++ (strip text ++ after) := by
  obtain ⟨before, hbefore, front⟩ := exists_lstrip text
  obtain ⟨after, hafter, back⟩ := exists_rstrip (lstrip text)
  exact ⟨before, after, hbefore, hafter, by rw [strip, ← back, ← front]⟩

/-! ## Markers and blanks -/

structure Solid (mark : List Char) : Prop where
  ne : mark ≠ []
  head : lstrip mark = mark
  last : lstrip mark.reverse = mark.reverse

theorem clearBelow_blank {mark blank : List Char} (ne : mark ≠ []) (head : lstrip mark = mark)
    (h : Blank blank) (text : List Char) : ClearBelow mark blank.length (blank ++ text) := by
  intro d below occurs
  obtain ⟨c, rest, rfl⟩ := List.exists_cons_of_ne_nil ne
  have first : blank[d] = c := by
    obtain ⟨tail, htail⟩ := occurs
    have char := congrArg List.head? htail
    rw [List.head?_drop, List.getElem?_append_left below, List.getElem?_eq_getElem below] at char
    simpa using char.symm
  have solid : isSpace c ≠ true := by
    have kept := List.head?_dropWhile_not isSpace (c :: rest)
    rw [← lstrip, head] at kept
    simpa using kept
  exact solid (first ▸ h _ (List.getElem_mem below))

theorem infix_append_blank_iff {mark blank : List Char} (solid : Solid mark) (h : Blank blank)
    (text : List Char) : mark <:+: text ++ blank ↔ mark <:+: text := by
  have reversed : Blank blank.reverse := fun c mem => h c (List.mem_reverse.mp mem)
  have clear := clearBelow_blank (List.reverse_ne_nil_iff.mpr solid.ne) solid.last reversed
    text.reverse
  rw [← List.reverse_infix, List.reverse_append, infix_append_iff_of_clear clear,
    List.reverse_infix]

theorem splitSub_between_blanks {mark before text after : List Char} (solid : Solid mark)
    (hbefore : Blank before) (hafter : Blank after) :
    splitSub mark (before ++ (text ++ after)) =
      (splitSub mark text).map fun (left, right) => (before ++ left, right ++ after) := by
  rw [splitSub_skip (clearBelow_blank solid.ne solid.head hbefore _)]
  cases split : splitSub mark text with
  | some found => rw [splitSub_append solid.ne split]; rfl
  | none =>
    have free : ¬ mark <:+: text ++ after := fun occurs =>
      splitSub_eq_none_iff.mp split ((infix_append_blank_iff solid hafter text).mp occurs)
    rw [splitSub_eq_none free]
    rfl

theorem cutSub_between_blanks {mark before text after : List Char} (solid : Solid mark)
    (hbefore : Blank before) (hafter : Blank after) :
    cutSub mark (before ++ (text ++ after)) =
      (cutSub mark text).map fun (left, block) => (before ++ left, block ++ after) := by
  rw [cutSub_eq_map_splitSub, cutSub_eq_map_splitSub, splitSub_between_blanks solid hbefore hafter,
    Option.map_map, Option.map_map]
  simp [Function.comp_def]

end FreeSwarm.Foundation
