import FreeSwarm.Foundation.Earliest

/-!
# Removing several markers

A text without its markers, all of them removed at once. Removing them one kind after the other does
the same as long as no marker is formed by what stands around removed ones; and a text may be cut
wherever no marker is cut.
-/

namespace FreeSwarm.Foundation

variable {α : Type*}

/-- No marker of a set is cut between two parts of a text. -/
def CutsNone (toks : List (List α)) (front text : List α) : Prop :=
  ∀ tok ∈ toks, ∀ d < front.length, tok <+: (front ++ text).drop d → d + tok.length ≤ front.length

theorem CutsNone.subset {toks toks' : List (List α)} {front text : List α}
    (whole : CutsNone toks front text) (sub : ∀ tok ∈ toks', tok ∈ toks) :
    CutsNone toks' front text :=
  fun tok mem => whole tok (sub tok mem)

variable {toks : List (List α)}

theorem CutsNone.append {front front' text : List α}
    (first : CutsNone toks front (front' ++ text)) (second : CutsNone toks front' text) :
    CutsNone toks (front ++ front') text := by
  intro tok mem d below occurs
  rw [List.length_append] at below ⊢
  rw [List.append_assoc] at occurs
  by_cases inside : d < front.length
  · exact (first tok mem d inside occurs).trans (Nat.le_add_right _ _)
  · rw [List.drop_append, List.drop_eq_nil_of_le (by omega), List.nil_append] at occurs
    have fits := second tok mem (d - front.length) (by omega) occurs
    omega

theorem Headed.cutsNone_before {lead : α} {front tok text : List α}
    (headed : Headed lead toks) (mem : tok ∈ toks) (starts : tok <+: text) :
    CutsNone toks front text := by
  intro tok' mem' d below occurs
  by_contra beyond
  have here : tok <+: (front ++ text).drop front.length := by rwa [List.drop_left]
  exact headed.no_overlap mem' mem occurs here below (by omega)

theorem Headed.cutsNone_behind {lead : α} {front tok text : List α}
    (headed : Headed lead toks) (mem : tok ∈ toks) : CutsNone toks (front ++ tok) text := by
  intro tok' mem' d below occurs
  by_contra beyond
  have here : tok <+: (front ++ tok ++ text).drop front.length := by
    rw [List.append_assoc, List.drop_left]
    exact List.prefix_append _ _
  rw [List.length_append] at below beyond
  have positive := List.length_pos_iff.mpr (headed.ne_nil mem)
  rcases Nat.lt_trichotomy d front.length with h | rfl | h
  · exact headed.no_overlap mem' mem occurs here h (by omega)
  · rcases List.prefix_or_prefix_of_prefix occurs here with h | h
    · rw [headed.apart tok' mem' tok mem h] at beyond
      omega
    · rw [headed.apart tok mem tok' mem' h] at beyond
      omega
  · exact headed.no_overlap mem mem' here occurs h (by omega)

variable [DecidableEq α]

/-- The text without its markers, found from left to right; `skip` characters of the last one are
still to be left out. -/
def removeMarksFrom (toks : List (List α)) : Nat → List α → List α
  | _, [] => []
  | skip + 1, _ :: text => removeMarksFrom toks skip text
  | 0, c :: text =>
    match toks.find? (· <+: c :: text) with
    | some tok => removeMarksFrom toks (tok.length - 1) text
    | none => c :: removeMarksFrom toks 0 text

def removeMarks (toks : List (List α)) (text : List α) : List α := removeMarksFrom toks 0 text

section
variable {lead c : α} {toks : List (List α)} {tok text front : List α}

theorem removeMarks_cons (free : ∀ tok ∈ toks, ¬ tok <+: c :: text) :
    removeMarks toks (c :: text) = c :: removeMarks toks text := by
  have none_ : toks.find? (· <+: c :: text) = none :=
    List.find?_eq_none.mpr fun tok mem => by simpa using free tok mem
  rw [removeMarks, removeMarksFrom, none_]
  rfl

theorem removeMarksFrom_append (toks : List (List α)) (skipped text : List α) :
    removeMarksFrom toks skipped.length (skipped ++ text) = removeMarksFrom toks 0 text := by
  induction skipped with
  | nil => rfl
  | cons c skipped ih => exact ih

theorem removeMarks_mark (headed : Headed lead toks) (mem : tok ∈ toks) (text : List α) :
    removeMarks toks (tok ++ text) = removeMarks toks text := by
  obtain ⟨c, rest, rfl⟩ := List.exists_cons_of_ne_nil (headed.ne_nil mem)
  have found : toks.find? (· <+: c :: (rest ++ text)) = some (c :: rest) := by
    cases search : toks.find? (· <+: c :: (rest ++ text)) with
    | none =>
      have absent := List.find?_eq_none.mp search (c :: rest) mem
      simp at absent
    | some tok' =>
      have starts : tok' <+: c :: rest ++ text := by simpa using List.find?_some search
      have mem' := List.mem_of_find?_eq_some search
      rcases List.prefix_or_prefix_of_prefix starts (List.prefix_append (c :: rest) text) with h | h
      · rw [headed.apart tok' mem' _ mem h]
      · rw [headed.apart _ mem tok' mem' h]
  rw [removeMarks, List.cons_append, removeMarksFrom, found]
  exact removeMarksFrom_append toks rest text

theorem removeMarks_append (headed : Headed lead toks) (whole : CutsNone toks front text) :
    removeMarks toks (front ++ text) = removeMarks toks front ++ removeMarks toks text := by
  have general : ∀ n (front : List α), front.length = n → CutsNone toks front text →
      removeMarks toks (front ++ text) = removeMarks toks front ++ removeMarks toks text := by
    intro n
    induction n using Nat.strong_induction_on with
    | _ n ih =>
      rintro front rfl whole
      cases front with
      | nil => rfl
      | cons c front =>
        by_cases starts : ∃ tok ∈ toks, tok <+: c :: (front ++ text)
        · obtain ⟨tok, mem, occurs⟩ := starts
          have positive := List.length_pos_iff.mpr (headed.ne_nil mem)
          have fits := whole tok mem 0 (by simp) occurs
          obtain ⟨rest, hrest⟩ : tok <+: c :: front :=
            @List.prefix_of_prefix_length_le _ _ _ (c :: (front ++ text)) occurs
              (List.prefix_append (c :: front) text) (by omega)
          have size := congrArg List.length hrest
          rw [List.length_append] at size
          rw [← hrest, List.append_assoc, removeMarks_mark headed mem, removeMarks_mark headed mem]
          refine ih rest.length (by omega) rest rfl fun tok' mem' d below occurs' => ?_
          have later := whole tok' mem' (tok.length + d) (by omega) (by
            rwa [← hrest, List.append_assoc, ← List.drop_drop, List.drop_left])
          omega
        · have free : ∀ tok ∈ toks, ¬ tok <+: c :: (front ++ text) :=
            fun tok mem occurs => starts ⟨tok, mem, occurs⟩
          have free' : ∀ tok ∈ toks, ¬ tok <+: c :: front :=
            fun tok mem occurs => free tok mem (occurs.trans (List.prefix_append (c :: front) text))
          rw [List.cons_append, removeMarks_cons free, removeMarks_cons free', List.cons_append,
            ih front.length (by simp) front rfl fun tok mem d below occurs => ?_]
          have fits := whole tok mem (d + 1) (by simpa using below) (by simpa using occurs)
          rw [List.length_cons] at fits
          omega
  exact general front.length front rfl whole

theorem removeMarks_of_free (free : ∀ tok ∈ toks, ¬ tok <:+: text) :
    removeMarks toks text = text := by
  induction text with
  | nil => rfl
  | cons c text ih =>
    rw [removeMarks_cons fun tok mem starts => free tok mem starts.isInfix,
      ih fun tok mem occurs => free tok mem (List.infix_cons occurs)]

theorem prefix_removeMarks_of_removeAll (headed : Headed lead toks) (mem : tok ∈ toks)
    {start : List α} (plain : lead ∉ start) (starts : start <+: removeAll tok text) :
    start <+: removeMarks toks text := by
  have general : ∀ n (text start : List α), text.length = n → lead ∉ start →
      start <+: removeAll tok text → start <+: removeMarks toks text := by
    intro n
    induction n using Nat.strong_induction_on with
    | _ n ih =>
      rintro text start rfl plain starts
      cases text with
      | nil => exact starts
      | cons c text =>
        by_cases here : tok <+: c :: text
        · obtain ⟨rest, hrest⟩ := here
          have positive := List.length_pos_iff.mpr (headed.ne_nil mem)
          have size := congrArg List.length hrest
          have gone := @removeAll_split _ _ _ [] rest (headed.ne_nil mem)
            (fun d below => absurd below (by simp))
          rw [List.nil_append, List.nil_append, hrest] at gone
          rw [List.length_append] at size
          rw [gone] at starts
          rw [← hrest, removeMarks_mark headed mem]
          exact ih rest.length (by omega) rest start rfl plain starts
        · have kept : removeAll tok (c :: text) = c :: removeAll tok text := by
            rw [removeAll, removeFrom, if_neg here]
            rfl
          rw [kept] at starts
          cases start with
          | nil => exact List.nil_prefix
          | cons c' start =>
            obtain ⟨rfl, starts'⟩ := List.cons_prefix_cons.mp starts
            have other : ∀ tok' ∈ toks, ¬ tok' <+: c' :: text := by
              intro tok' mem' occurs
              obtain ⟨c'', tail, rfl⟩ := List.exists_cons_of_ne_nil (headed.ne_nil mem')
              obtain ⟨rfl, -⟩ := List.cons_prefix_cons.mp occurs
              have same : c'' = lead := Option.some.inj (headed.head _ mem')
              exact plain (same ▸ List.mem_cons_self)
            rw [removeMarks_cons other]
            refine List.cons_prefix_cons.mpr ⟨rfl, ih text.length (by simp) text start rfl ?_ starts'⟩
            exact fun inside => plain (List.mem_cons_of_mem _ inside)
  exact general text.length text start rfl plain starts

/-- Removing one kind of marker before the others is removing all at once, when no marker is formed
around removed ones. -/
theorem removeMarks_removeAll {rest : List (List α)} (headed : Headed lead (tok :: rest))
    (unnested : ∀ tok' ∈ rest, ¬ tok' <:+: removeMarks (tok :: rest) text) :
    removeMarks rest (removeAll tok text) = removeMarks (tok :: rest) text := by
  have sub : Headed lead rest :=
    ⟨fun t m => headed.head t (List.mem_cons_of_mem _ m),
      fun t m => headed.once t (List.mem_cons_of_mem _ m),
      fun t m t' m' => headed.apart t (List.mem_cons_of_mem _ m) t' (List.mem_cons_of_mem _ m')⟩
  have general : ∀ n (text : List α), text.length = n →
      (∀ tok' ∈ rest, ¬ tok' <:+: removeMarks (tok :: rest) text) →
      removeMarks rest (removeAll tok text) = removeMarks (tok :: rest) text := by
    intro n
    induction n using Nat.strong_induction_on with
    | _ n ih =>
      rintro text rfl unnested
      cases text with
      | nil => rfl
      | cons c text =>
        by_cases here : tok <+: c :: text
        · obtain ⟨after, hafter⟩ := here
          have positive := List.length_pos_iff.mpr (headed.ne_nil List.mem_cons_self)
          have size := congrArg List.length hafter
          have gone := @removeAll_split _ _ _ [] after
            (headed.ne_nil List.mem_cons_self) (fun d below => absurd below (by simp))
          rw [List.nil_append, List.nil_append, hafter] at gone
          rw [List.length_append] at size
          rw [gone]
          rw [← hafter, removeMarks_mark headed List.mem_cons_self] at unnested ⊢
          exact ih after.length (by omega) after rfl unnested
        by_cases there : ∃ tok' ∈ rest, tok' <+: c :: text
        · obtain ⟨tok', mem', after, hafter⟩ := there
          have mem'' : tok' ∈ tok :: rest := List.mem_cons_of_mem _ mem'
          have positive := List.length_pos_iff.mpr (sub.ne_nil mem')
          have size := congrArg List.length hafter
          have kept : removeAll tok (tok' ++ after) = tok' ++ removeAll tok after := by
            refine removeAll_skip fun d below occurs => ?_
            rcases Nat.eq_zero_or_pos d with rfl | later
            · rw [hafter, List.drop_zero] at occurs
              exact here occurs
            · exact headed.no_overlap mem'' List.mem_cons_self (d := 0)
                (List.prefix_append tok' after) occurs later (by omega)
          rw [List.length_append] at size
          rw [← hafter, removeMarks_mark headed mem''] at unnested
          rw [← hafter, kept, removeMarks_mark sub mem', removeMarks_mark headed mem'']
          exact ih after.length (by omega) after rfl unnested
        · have free : ∀ tok' ∈ tok :: rest, ¬ tok' <+: c :: text := by
            intro tok' mem' occurs
            rcases List.mem_cons.mp mem' with rfl | mem'
            · exact here occurs
            · exact there ⟨tok', mem', occurs⟩
          have kept : removeAll tok (c :: text) = c :: removeAll tok text := by
            rw [removeAll, removeFrom, if_neg here]
            rfl
          rw [removeMarks_cons free] at unnested ⊢
          have formed : ∀ tok' ∈ rest, ¬ tok' <+: c :: removeAll tok text := by
            intro tok' mem' occurs
            refine unnested tok' mem' ?_
            obtain ⟨c', tail, rfl⟩ := List.exists_cons_of_ne_nil (sub.ne_nil mem')
            obtain ⟨rfl, starts⟩ := List.cons_prefix_cons.mp occurs
            have plain : lead ∉ tail := headed.once _ (List.mem_cons_of_mem _ mem')
            exact (List.cons_prefix_cons.mpr ⟨rfl, prefix_removeMarks_of_removeAll headed
              List.mem_cons_self plain starts⟩).isInfix
          rw [kept, removeMarks_cons formed, ih text.length (by simp) text rfl
            fun tok' mem' occurs => unnested tok' mem' (List.infix_cons occurs)]
  exact general text.length text rfl unnested

/-- Removing the markers one kind after the other is removing all at once, when no marker is formed
around removed ones. -/
theorem foldl_removeAll (headed : Headed lead toks)
    (unnested : ∀ tok ∈ toks, ¬ tok <:+: removeMarks toks text) :
    toks.foldl (fun text tok => removeAll tok text) text = removeMarks toks text := by
  induction toks generalizing text with
  | nil => exact (@removeMarks_of_free _ _ [] _ (by simp)).symm
  | cons tok toks ih =>
    have sub : Headed lead toks :=
      ⟨fun t m => headed.head t (List.mem_cons_of_mem _ m),
        fun t m => headed.once t (List.mem_cons_of_mem _ m),
        fun t m t' m' => headed.apart t (List.mem_cons_of_mem _ m) t' (List.mem_cons_of_mem _ m')⟩
    have same := removeMarks_removeAll headed fun tok' mem => unnested tok' (List.mem_cons_of_mem _ mem)
    rw [List.foldl_cons, ih sub (by
      rw [same]
      exact fun tok' mem => unnested tok' (List.mem_cons_of_mem _ mem)), same]

end

end FreeSwarm.Foundation
