import FreeSwarm.Foundation.Earliest

/-!
# A buffer in a known text

A reader holds a beginning of a text whose next marker is known: `buf ++ future` is
`front ++ (tok ++ rest)`, no marker of the set stands in `front`, and `tok` is one of them. Either the
buffer reaches to the end of the marker, and the search finds it there, before every other one; or no
marker is found, and what is given away is a part of `front`.
-/

namespace FreeSwarm.Foundation

variable {α : Type*} [DecidableEq α] {lead : α} {toks : List (List α)}
  {front tok tok' rest buf future : List α} {pos : Nat}

section
variable (headed : Headed lead toks) (mem : tok ∈ toks)
  (free : ∀ tok' ∈ toks, ¬ tok' <:+: front) (whole : buf ++ future = front ++ (tok ++ rest))

omit [DecidableEq α] in
include headed mem free in
/-- A text without markers stays so up to the marker that follows it. -/
theorem Headed.clear_ahead (mem' : tok' ∈ toks) :
    ClearBelow tok' front.length (front ++ (tok ++ rest)) := by
  intro d below occurs
  by_cases fits : d + tok'.length ≤ front.length
  · exact free tok' mem' (isInfix_of_prefix_drop_append occurs fits)
  · have here : tok <+: (front ++ (tok ++ rest)).drop front.length := by
      rw [List.drop_left]
      exact List.prefix_append _ _
    exact headed.no_overlap mem' mem occurs here below (by omega)

include headed mem free in
theorem Headed.splitSub_ahead (rest : List α) :
    splitSub tok (front ++ (tok ++ rest)) = some (front, rest) := by
  have clear := @Headed.clear_ahead _ _ _ _ _ _ rest headed mem free mem
  rw [← List.append_assoc] at clear ⊢
  exact splitSub_of_clear clear

include headed mem free in
theorem Headed.earliest_ahead (rest : List α) :
    earliest toks (front ++ (tok ++ rest)) = some (front.length, tok) := by
  refine headed.earliest_eq mem ?_ fun tok' mem' => headed.clear_ahead mem free mem'
  rw [List.drop_left]
  exact List.prefix_append _ _

include headed mem free whole in
theorem Headed.found_ahead (found : findSub tok buf = some pos) :
    pos = front.length ∧ buf.take pos = front ∧ buf.drop (pos + tok.length) ++ future = rest := by
  have grown := findSub_append (headed.ne_nil mem) found future
  have at_ : findSub tok (front ++ (tok ++ rest)) = some front.length :=
    findSub_of_clear (by rw [List.drop_left]; exact List.prefix_append _ _)
      (headed.clear_ahead mem free mem)
  rw [whole, at_] at grown
  cases grown
  have room := findSub_room (headed.ne_nil mem) found
  refine ⟨rfl, ?_, ?_⟩
  · have taken := congrArg (List.take front.length) whole
    rwa [List.take_append_of_le_length (by omega), List.take_left] at taken
  · have left := congrArg (List.drop (front.length + tok.length)) whole
    have size : front.length + tok.length = (front ++ tok).length := List.length_append.symm
    rwa [List.drop_append_of_le_length room, ← List.append_assoc front, size, List.drop_left,
      ← size] at left

include headed mem free whole in
theorem Headed.later_ahead (mem' : tok' ∈ toks) (other : tok' ≠ tok)
    (found : findSub tok' buf = some pos) : front.length < pos := by
  have grown := findSub_append (headed.ne_nil mem') found future
  rw [whole] at grown
  have there := findSub_occurs grown
  rcases Nat.lt_trichotomy pos front.length with below | rfl | above
  · exact absurd there (headed.clear_ahead mem free mem' pos below)
  · rw [List.drop_left] at there
    rcases List.prefix_or_prefix_of_prefix there (List.prefix_append tok rest) with h | h
    · exact absurd (headed.apart _ mem' _ mem h) other
    · exact absurd (headed.apart _ mem _ mem' h).symm other
  · exact above

include headed mem free whole in
theorem Headed.unseen_ahead (unseen : findSub tok buf = none) (mem' : tok' ∈ toks) :
    findSub tok' buf = none := by
  by_cases other : tok' = tok
  · rw [other]
    exact unseen
  cases found : findSub tok' buf with
  | none => rfl
  | some pos =>
    have later := headed.later_ahead mem free whole mem' other found
    have room := findSub_room (headed.ne_nil mem') found
    have grown := findSub_occurs (findSub_append (headed.ne_nil mem') found future)
    rw [whole] at grown
    have here : tok <+: (front ++ (tok ++ rest)).drop front.length := by
      rw [List.drop_left]
      exact List.prefix_append _ _
    by_cases inside : pos < front.length + tok.length
    · exact (headed.no_overlap mem mem' here grown later inside).elim
    · rw [← whole] at here
      have early : tok <:+: buf := isInfix_of_prefix_drop_append here (by omega)
      exact absurd early (findSub_eq_none_iff.mp unseen)

include mem whole in
/-- When the next marker is not found, what is given away is text before it. -/
theorem hold_ahead (unseen : findSub tok buf = none) :
    ∃ front', front = buf.take (buf.length - partialLen toks buf) ++ front' ∧
      buf.drop (buf.length - partialLen toks buf) ++ future = front' ++ (tok ++ rest) := by
  have clear := clearBelow_splitPartial mem (findSub_eq_none_iff.mp unseen) future
  simp only [splitPartial, List.splitAt_eq] at clear
  generalize buf.length - partialLen toks buf = safe at *
  have atMost : (buf.take safe).length ≤ front.length := by
    by_contra beyond
    refine clear front.length (by omega) ?_
    rw [whole, List.drop_left]
    exact List.prefix_append _ _
  have begins : buf.take safe <+: front := by
    refine List.prefix_of_prefix_length_le ?_ (List.prefix_append front (tok ++ rest)) atMost
    rw [← whole]
    exact (List.take_prefix _ _).trans (List.prefix_append buf future)
  obtain ⟨front', hfront⟩ := begins
  refine ⟨front', hfront.symm, ?_⟩
  rw [← List.take_append_drop safe buf, ← hfront, List.append_assoc, List.append_assoc] at whole
  exact List.append_cancel_left whole

omit [DecidableEq α] in
include whole in
theorem drop_ahead (taken : buf.take front.length = front) :
    buf.drop front.length ++ future = tok ++ rest := by
  have split := List.take_append_drop front.length buf
  rw [taken] at split
  rw [← split, List.append_assoc] at whole
  exact List.append_cancel_left whole

omit mem in
theorem ne_nil_of_unseen (whole : buf ++ future = front ++ (tok ++ rest))
    (unseen : findSub tok buf = none) : future ≠ [] := by
  rintro rfl
  rw [List.append_nil] at whole
  exact findSub_eq_none_iff.mp unseen (whole ▸ ⟨front, rest, by rw [List.append_assoc]⟩)

end

end FreeSwarm.Foundation
