import Mathlib.Data.List.Basic
import Mathlib.Data.List.Infix

/-!
# Searching a text

A text is a list of characters. `findSub` is the position of the first occurrence of a pattern,
`before` the text up to that position. The lemmas say where an occurrence in a growing text can
lie: a text known to be free of the pattern leaves only its last few characters for the start of
one.
-/

namespace FreeSwarm.Foundation

variable {α : Type*}

/-- Texts are looked up by equality. -/
instance instLawfulBEqText : LawfulBEq (List Char) := inferInstance

theorem isInfix_iff_exists_drop {sub text : List α} :
    sub <:+: text ↔ ∃ d, sub <+: text.drop d := by
  constructor
  · rintro ⟨left, right, rfl⟩
    exact ⟨left.length, right, by simp⟩
  · rintro ⟨d, h⟩
    exact h.isInfix.trans (List.drop_suffix d text).isInfix

variable {sub text ext : List α}

theorem take_suffix_of_overhang {d : Nat}
    (occurs : sub <+: (text ++ ext).drop d) (inside : d ≤ text.length)
    (beyond : text.length - d ≤ sub.length) : sub.take (text.length - d) <:+ text := by
  rw [List.drop_append_of_le_length inside] at occurs
  have shorter : (sub.take (text.length - d)).length = (text.drop d).length := by
    simp [Nat.min_eq_left beyond]
  have same : sub.take (text.length - d) = text.drop d :=
    List.IsPrefix.eq_of_length
      (List.prefix_of_prefix_length_le ((List.take_prefix _ _).trans occurs)
        (List.prefix_append _ _) shorter.le) shorter
  rw [same]
  exact List.drop_suffix d text

theorem isInfix_of_prefix_drop_append {d : Nat}
    (occurs : sub <+: (text ++ ext).drop d) (fits : d + sub.length ≤ text.length) :
    sub <:+: text := by
  rw [List.drop_append_of_le_length (by omega)] at occurs
  have prior : sub <+: text.drop d :=
    List.prefix_of_prefix_length_le occurs (List.prefix_append _ _)
      (by simp only [List.length_drop]; omega)
  exact isInfix_iff_exists_drop.mpr ⟨d, prior⟩

theorem isInfix_of_prefix_drop_right {d : Nat}
    (occurs : sub <+: (text ++ ext).drop d) (beyond : text.length ≤ d) : sub <:+: ext := by
  rw [List.drop_append, List.drop_eq_nil_of_le beyond, List.nil_append] at occurs
  exact isInfix_iff_exists_drop.mpr ⟨_, occurs⟩

/-- When a text is known to be free of a pattern up to its last piece, an occurrence reaches into
the last piece, so that only as many characters before it matter as the pattern is long. -/
theorem isInfix_of_window {sub front back last : List α} (free : ¬ sub <:+: front ++ back)
    (long : sub.length ≤ back.length) (occurs : sub <:+: front ++ back ++ last) :
    sub <:+: back ++ last := by
  obtain ⟨d, hd⟩ := isInfix_iff_exists_drop.mp occurs
  have crossing : ¬ d + sub.length ≤ (front ++ back).length :=
    fun fits => free (isInfix_of_prefix_drop_append hd fits)
  rw [List.append_assoc] at hd
  refine isInfix_of_prefix_drop_right hd ?_
  simp only [List.length_append] at crossing
  omega

variable [DecidableEq α]

/-- The position of the first occurrence of a pattern in a text. -/
def findSub (sub : List α) : List α → Option Nat
  | [] => if sub = [] then some 0 else none
  | c :: text => if sub <+: c :: text then some 0 else (findSub sub text).map (· + 1)

/-- The text up to the first occurrence of a pattern, the whole text when there is none. -/
def before (sub text : List α) : List α :=
  match findSub sub text with
  | some cut => text.take cut
  | none => text

attribute [local grind =] findSub before

variable {sub text : List α}

/-- A pattern that occurs is found, and nothing is found in its absence. -/
theorem findSub_eq_none_iff : findSub sub text = none ↔ ¬ sub <:+: text := by
  induction text with
  | nil => simp [findSub]
  | cons c text ih =>
    by_cases here : sub <+: c :: text
    · simp [findSub, here, here.isInfix]
    · simp [findSub, here, ih, List.infix_cons_iff]

theorem findSub_occurs {cut : Nat} (found : findSub sub text = some cut) :
    sub <+: text.drop cut := by
  induction text generalizing cut with
  | nil =>
    by_cases empty : sub = []
    · simp [empty]
    · simp [findSub, empty] at found
  | cons c text ih =>
    by_cases here : sub <+: c :: text
    · obtain rfl : 0 = cut := by simpa [findSub, here] using found
      simpa using here
    · obtain ⟨d, hd, rfl⟩ : ∃ d, findSub sub text = some d ∧ d + 1 = cut := by
        simpa [findSub, here] using found
      simpa using ih hd

theorem findSub_least {cut : Nat} (found : findSub sub text = some cut) :
    ∀ d < cut, ¬ sub <+: text.drop d := by
  induction text generalizing cut with
  | nil =>
    by_cases empty : sub = []
    · obtain rfl : 0 = cut := by simpa [findSub, empty] using found
      omega
    · simp [findSub, empty] at found
  | cons c text ih =>
    by_cases here : sub <+: c :: text
    · obtain rfl : 0 = cut := by simpa [findSub, here] using found
      omega
    · obtain ⟨e, he, rfl⟩ : ∃ e, findSub sub text = some e ∧ e + 1 = cut := by
        simpa [findSub, here] using found
      intro d below
      cases d with
      | zero => simpa using here
      | succ d => simpa using ih he d (by omega)

theorem findSub_le {cut : Nat} (found : findSub sub text = some cut) :
    cut ≤ text.length := by
  induction text generalizing cut with
  | nil =>
    by_cases empty : sub = []
    · obtain rfl : 0 = cut := by simpa [findSub, empty] using found
      simp
    · simp [findSub, empty] at found
  | cons c text ih =>
    by_cases here : sub <+: c :: text
    · obtain rfl : 0 = cut := by simpa [findSub, here] using found
      omega
    · obtain ⟨e, he, rfl⟩ : ∃ e, findSub sub text = some e ∧ e + 1 = cut := by
        simpa [findSub, here] using found
      simpa using ih he

theorem not_infix_before (nonempty : sub ≠ []) :
    ¬ sub <:+: before sub text := by
  unfold before
  cases found : findSub sub text with
  | none => exact findSub_eq_none_iff.mp found
  | some cut =>
    intro occurs
    obtain ⟨d, hd⟩ := isInfix_iff_exists_drop.mp occurs
    have positive := List.length_pos_iff.mpr nonempty
    have inside := hd.length_le
    simp only [List.length_drop, List.length_take] at inside
    refine findSub_least found d (by omega) ?_
    rw [List.drop_take] at hd
    exact hd.trans (List.take_prefix _ _)

end FreeSwarm.Foundation
