import FreeSwarm.Foundation.Text

/-!
# Markers in a growing text

A reader that sees a text piece by piece looks for markers in what it has so far. A marker found
stays where it was found when the text grows. One not found may still begin in the last few
characters, those that start some marker: `partialLen` is how many of them a reader must hold back.
What comes before them can be given away, for no marker begins there any more.
-/

namespace FreeSwarm.Foundation

variable {α : Type*}

/-- No occurrence of a pattern starts among the first `n` characters of a text. -/
def ClearBelow (sub : List α) (n : Nat) (text : List α) : Prop := ∀ d < n, ¬ sub <+: text.drop d

theorem ClearBelow.mono {sub text : List α} {m n : Nat} (clear : ClearBelow sub n text)
    (fewer : m ≤ n) : ClearBelow sub m text :=
  fun d below => clear d (by omega)

theorem clearBelow_of_free {sub text : List α} (free : ¬ sub <:+: text) (n : Nat) :
    ClearBelow sub n text :=
  fun d _ occurs => free (isInfix_iff_exists_drop.mpr ⟨d, occurs⟩)

theorem ClearBelow.of_append {sub text ext : List α} {n : Nat}
    (clear : ClearBelow sub n (text ++ ext)) : ClearBelow sub n text := by
  intro d below occurs
  by_cases inside : d ≤ text.length
  · refine clear d below ?_
    rw [List.drop_append_of_le_length inside]
    exact occurs.trans (List.prefix_append _ _)
  · rw [List.drop_eq_nil_of_le (by omega)] at occurs
    obtain rfl := List.prefix_nil.mp occurs
    exact clear d below List.nil_prefix

variable {sub front text : List α}

/-- A text that is clear up to its own last character stays so when pieces come before it that hold
no start either. -/
theorem ClearBelow.append_left {n : Nat}
    (front_clear : ClearBelow sub front.length (front ++ text)) (clear : ClearBelow sub n text) :
    ClearBelow sub (front.length + n) (front ++ text) := by
  intro d below
  by_cases inside : d < front.length
  · exact front_clear d inside
  · rw [List.drop_append, List.drop_eq_nil_of_le (by omega), List.nil_append]
    exact clear _ (by omega)

theorem ClearBelow.drop {n : Nat}
    (clear : ClearBelow sub (front.length + n) (front ++ text)) : ClearBelow sub n text := by
  intro d below
  have here := clear (front.length + d) (by omega)
  rwa [← List.drop_drop, List.drop_left] at here

/-- An occurrence behind a piece in which none starts is one in what follows the piece. -/
theorem infix_append_iff_of_clear
    (clear : ClearBelow sub front.length (front ++ text)) :
    sub <:+: front ++ text ↔ sub <:+: text := by
  constructor
  · intro occurs
    obtain ⟨d, hd⟩ := isInfix_iff_exists_drop.mp occurs
    refine isInfix_of_prefix_drop_right hd ?_
    by_contra inside
    exact clear d (by omega) hd
  · exact fun occurs => occurs.trans (List.suffix_append _ _).isInfix

variable [DecidableEq α]

/-! ## Splitting at a marker -/

/-- The text before the first occurrence of a marker and the text after it. -/
def splitSub (sub text : List α) : Option (List α × List α) :=
  (findSub sub text).map fun cut => (text.take cut, text.drop (cut + sub.length))

variable {sub text : List α} {toks : List (List α)}

theorem splitSub_eq_none_iff : splitSub sub text = none ↔ ¬ sub <:+: text := by
  rw [splitSub, Option.map_eq_none_iff, findSub_eq_none_iff]

theorem splitSub_eq_none (free : ¬ sub <:+: text) : splitSub sub text = none :=
  splitSub_eq_none_iff.mpr free

theorem splitSub_spec {sub text left right : List α} (split : splitSub sub text = some (left, right)) :
    text = left ++ sub ++ right ∧ ClearBelow sub left.length text := by
  obtain ⟨cut, found, same⟩ := Option.map_eq_some_iff.mp split
  cases same
  have inside := findSub_le found
  constructor
  · obtain ⟨rest, hrest⟩ := findSub_occurs found
    rw [← List.drop_drop, ← hrest, List.drop_left, List.append_assoc, hrest, List.take_append_drop]
  · intro d below
    refine findSub_least found d ?_
    rw [List.length_take] at below
    omega

theorem splitSub_of_clear {sub left right : List α}
    (clear : ClearBelow sub left.length (left ++ sub ++ right)) :
    splitSub sub (left ++ sub ++ right) = some (left, right) := by
  have here : sub <+: (left ++ sub ++ right).drop left.length := by
    rw [List.append_assoc, List.drop_left]
    exact List.prefix_append _ _
  cases found : findSub sub (left ++ sub ++ right) with
  | none => exact absurd (isInfix_iff_exists_drop.mpr ⟨_, here⟩) (findSub_eq_none_iff.mp found)
  | some cut =>
    have atLeast : left.length ≤ cut := by
      by_contra earlier
      exact clear cut (by omega) (findSub_occurs found)
    have atMost : cut ≤ left.length := by
      by_contra later
      exact findSub_least found _ (by omega) here
    obtain rfl : cut = left.length := le_antisymm atMost atLeast
    rw [splitSub, found, Option.map_some, ← List.drop_drop, List.append_assoc, List.take_left,
      List.drop_left, List.drop_left]

theorem splitSub_self (sub right : List α) : splitSub sub (sub ++ right) = some ([], right) :=
  @splitSub_of_clear _ _ sub [] right fun d below => absurd below (Nat.not_lt_zero d)

theorem splitSub_append {sub text left right : List α} (nonempty : sub ≠ [])
    (split : splitSub sub text = some (left, right)) (ext : List α) :
    splitSub sub (text ++ ext) = some (left, right ++ ext) := by
  obtain ⟨rfl, clear⟩ := splitSub_spec split
  rw [List.append_assoc]
  refine splitSub_of_clear fun d below occurs => clear d below ?_
  have positive := List.length_pos_iff.mpr nonempty
  rw [List.append_assoc left, List.drop_append_of_le_length (by omega)] at occurs ⊢
  rw [← List.append_assoc sub, ← List.append_assoc] at occurs
  refine List.prefix_of_prefix_length_le occurs (List.prefix_append _ _) ?_
  simp only [List.length_append, List.length_drop]
  omega

theorem findSub_of_clear {pos : Nat} (here : sub <+: text.drop pos)
    (clear : ClearBelow sub pos text) : findSub sub text = some pos := by
  cases found : findSub sub text with
  | none => exact absurd (isInfix_iff_exists_drop.mpr ⟨pos, here⟩) (findSub_eq_none_iff.mp found)
  | some first =>
    have atLeast : pos ≤ first :=
      not_lt.mp fun before => clear first before (findSub_occurs found)
    have atMost : first ≤ pos := not_lt.mp fun before => findSub_least found pos before here
    rw [le_antisymm atLeast atMost]

theorem before_of_clear {sub front back : List α} (clear : ClearBelow sub front.length (front ++ (sub ++ back))) :
    before sub (front ++ (sub ++ back)) = front := by
  have here : findSub sub (front ++ (sub ++ back)) = some front.length :=
    findSub_of_clear (by rw [List.drop_left]; exact List.prefix_append _ _) clear
  rw [before, here]
  exact List.take_left

theorem findSub_append {pos : Nat} (nonempty : sub ≠ [])
    (found : findSub sub text = some pos) (ext : List α) : findSub sub (text ++ ext) = some pos := by
  have room := (findSub_occurs found).length_le
  have positive := List.length_pos_iff.mpr nonempty
  rw [List.length_drop] at room
  refine findSub_of_clear ?_ fun d below occurs => ?_
  · rw [List.drop_append_of_le_length (by omega)]
    exact (findSub_occurs found).trans (List.prefix_append _ _)
  · refine findSub_least found d below ?_
    rw [List.drop_append_of_le_length (by omega)] at occurs
    exact List.prefix_of_prefix_length_le occurs (List.prefix_append _ _)
      (by rw [List.length_drop]; omega)

theorem findSub_room {pos : Nat} (nonempty : sub ≠ [])
    (found : findSub sub text = some pos) : pos + sub.length ≤ text.length := by
  have room := (findSub_occurs found).length_le
  have positive := List.length_pos_iff.mpr nonempty
  rw [List.length_drop] at room
  omega

/-- A piece in which no occurrence starts can be given away before the split. -/
theorem splitSub_skip {sub front text : List α} (clear : ClearBelow sub front.length (front ++ text)) :
    splitSub sub (front ++ text) =
      (splitSub sub text).map fun (left, right) => (front ++ left, right) := by
  cases split : splitSub sub text with
  | none =>
    exact splitSub_eq_none fun occurs =>
      splitSub_eq_none_iff.mp split ((infix_append_iff_of_clear clear).mp occurs)
  | some r =>
    obtain ⟨left, right⟩ := r
    obtain ⟨rfl, rest⟩ := splitSub_spec split
    have both := clear.append_left rest
    rw [← List.length_append, ← List.append_assoc, ← List.append_assoc] at both
    rw [Option.map_some, ← List.append_assoc, ← List.append_assoc]
    exact splitSub_of_clear both

def cutSub (sub text : List α) : Option (List α × List α) :=
  (findSub sub text).map fun cut => (text.take cut, text.drop cut)

theorem cutSub_eq_map_splitSub (sub text : List α) :
    cutSub sub text = (splitSub sub text).map fun (left, right) => (left, sub ++ right) := by
  rw [cutSub, splitSub, Option.map_map]
  cases found : findSub sub text with
  | none => rfl
  | some cut =>
    obtain ⟨rest, hrest⟩ := findSub_occurs found
    simp only [Option.map_some, Function.comp_apply]
    rw [← List.drop_drop, ← hrest, List.drop_left]

theorem cutSub_eq_none_iff : cutSub sub text = none ↔ ¬ sub <:+: text := by
  rw [cutSub, Option.map_eq_none_iff, findSub_eq_none_iff]

/-- A cut puts the text together again, the marker starts its second part, and no occurrence starts
before it. -/
theorem cutSub_spec {sub text left block : List α} (cut : cutSub sub text = some (left, block)) :
    text = left ++ block ∧ sub <+: block ∧ ClearBelow sub left.length text := by
  rw [cutSub_eq_map_splitSub] at cut
  obtain ⟨⟨l, r⟩, split, same⟩ := Option.map_eq_some_iff.mp cut
  cases same
  obtain ⟨whole, clear⟩ := splitSub_spec split
  exact ⟨whole.trans (List.append_assoc _ _ _), List.prefix_append _ _, clear⟩

theorem cutSub_of_clear {sub left block : List α} (here : sub <+: block)
    (clear : ClearBelow sub left.length (left ++ block)) :
    cutSub sub (left ++ block) = some (left, block) := by
  obtain ⟨right, rfl⟩ := here
  rw [← List.append_assoc] at clear ⊢
  rw [cutSub_eq_map_splitSub, splitSub_of_clear clear, Option.map_some]

/-- A piece in which no occurrence starts can be given away before the cut. -/
theorem cutSub_skip {sub front text : List α} (clear : ClearBelow sub front.length (front ++ text)) :
    cutSub sub (front ++ text) =
      (cutSub sub text).map fun (left, block) => (front ++ left, block) := by
  rw [cutSub_eq_map_splitSub, cutSub_eq_map_splitSub, splitSub_skip clear, Option.map_map,
    Option.map_map]
  rfl

/-! ## Holding back -/

/-- The longest proper prefix of a marker, of more than `best` and at most `n` characters, that ends
the text; `best` when there is none. -/
def suffixPartial (tok text : List α) (best : Nat) : Nat → Nat
  | 0 => best
  | k + 1 =>
    if k + 1 ≤ best then best
    else if tok.take (k + 1) <:+ text then k + 1 else suffixPartial tok text best k

/-- How many characters at the end of a text start some marker. -/
def partialLen (toks : List (List α)) (text : List α) : Nat :=
  toks.foldl (fun best tok => suffixPartial tok text best (min (tok.length - 1) text.length)) 0

theorem le_suffixPartial (tok text : List α) (best n : Nat) : best ≤ suffixPartial tok text best n := by
  induction n with
  | zero => exact le_rfl
  | succ n ih =>
    rw [suffixPartial]
    split_ifs with small ends
    · exact le_rfl
    · omega
    · exact ih

theorem le_suffixPartial_of_suffix {tok text : List α} {best k n : Nat} (bound : k ≤ n)
    (positive : 0 < k) (ends : tok.take k <:+ text) : k ≤ suffixPartial tok text best n := by
  induction n with
  | zero => omega
  | succ n ih =>
    rw [suffixPartial]
    split_ifs with small here
    · omega
    · exact bound
    · have below : k ≠ n + 1 := fun eq => here (eq ▸ ends)
      exact ih (by omega)

theorem suffixPartial_cases (tok text : List α) (best n : Nat) :
    suffixPartial tok text best n = best ∨
      (suffixPartial tok text best n ≤ n ∧ tok.take (suffixPartial tok text best n) <:+ text) := by
  induction n with
  | zero => exact .inl rfl
  | succ n ih =>
    rw [suffixPartial]
    split_ifs with small ends
    · exact .inl rfl
    · exact .inr ⟨le_rfl, ends⟩
    · exact ih.imp_right fun h => ⟨h.1.trans (Nat.le_succ n), h.2⟩

theorem partialLen_cases (toks : List (List α)) (text : List α) :
    partialLen toks text = 0 ∨ ∃ tok ∈ toks, partialLen toks text ≤ tok.length - 1 ∧
      partialLen toks text ≤ text.length ∧ tok.take (partialLen toks text) <:+ text := by
  have general : ∀ (toks : List (List α)) (best : Nat), let r := toks.foldl (fun best tok =>
      suffixPartial tok text best (min (tok.length - 1) text.length)) best
      r = best ∨ ∃ tok ∈ toks, r ≤ tok.length - 1 ∧ r ≤ text.length ∧ tok.take r <:+ text := by
    intro toks
    induction toks with
    | nil => exact fun best => .inl rfl
    | cons tok toks ih =>
      intro best
      rcases ih (suffixPartial tok text best (min (tok.length - 1) text.length)) with same | found
      · rcases suffixPartial_cases tok text best (min (tok.length - 1) text.length) with
          none | ⟨bound, ends⟩
        · exact .inl (same.trans none)
        · refine .inr ⟨tok, List.mem_cons_self, ?_⟩
          simp only [List.foldl_cons]
          rw [same]
          exact ⟨bound.trans (min_le_left _ _), bound.trans (min_le_right _ _), ends⟩
      · obtain ⟨tok', mem, rest⟩ := found
        exact .inr ⟨tok', List.mem_cons_of_mem _ mem, rest⟩
  exact general toks 0

theorem le_partialLen {tok text : List α} {k : Nat} (mem : tok ∈ toks)
    (short : k ≤ tok.length - 1) (inside : k ≤ text.length) (ends : tok.take k <:+ text) :
    k ≤ partialLen toks text := by
  rcases Nat.eq_zero_or_pos k with rfl | positive
  · exact Nat.zero_le _
  have general : ∀ (toks : List (List α)) (best : Nat), (k ≤ best ∨ tok ∈ toks) →
      k ≤ toks.foldl (fun best tok =>
        suffixPartial tok text best (min (tok.length - 1) text.length)) best := by
    intro toks
    induction toks with
    | nil => intro best h; exact h.resolve_right (List.not_mem_nil)
    | cons first toks ih =>
      intro best h
      refine ih _ ?_
      rcases h with h | h
      · exact .inl (h.trans (le_suffixPartial _ _ _ _))
      · rcases List.mem_cons.mp h with rfl | h
        · exact .inl (le_suffixPartial_of_suffix (le_min short inside) positive ends)
        · exact .inr h
  exact general toks 0 (.inr mem)

theorem partialLen_le_length (toks : List (List α)) (text : List α) :
    partialLen toks text ≤ text.length := by
  rcases partialLen_cases toks text with none | ⟨tok, -, -, inside, -⟩
  · omega
  · exact inside

/-- The text that can be given away, and the text held back. -/
def splitPartial (toks : List (List α)) (text : List α) : List α × List α :=
  text.splitAt (text.length - partialLen toks text)

theorem splitPartial_append (toks : List (List α)) (text : List α) :
    (splitPartial toks text).1 ++ (splitPartial toks text).2 = text := by
  simp [splitPartial]

/-- No marker that is not in the text yet will start in what is given away. -/
theorem clearBelow_splitPartial {tok text : List α} (mem : tok ∈ toks)
    (free : ¬ tok <:+: text) (ext : List α) :
    ClearBelow tok (splitPartial toks text).1.length (text ++ ext) := by
  intro d below occurs
  simp only [splitPartial, List.splitAt_eq, List.length_take] at below
  have beyond : text.length < d + tok.length := by
    by_contra fits
    exact free (isInfix_of_prefix_drop_append occurs (by omega))
  have ends := take_suffix_of_overhang occurs (by omega) (by omega)
  have held := le_partialLen mem (by omega) (by omega) ends
  omega

/-- Nothing is held back from before a marker that no tracked marker contains before its last
character, and that shares no end of it with the beginning of one. -/
theorem partialLen_le_of_apart {mark : List α}
    (across : ∀ tok ∈ toks, ∀ d < mark.length, 0 < d → ¬ mark.drop d <+: tok)
    (inside : ∀ tok ∈ toks, ¬ mark <:+: tok.dropLast) (front last : List α) :
    partialLen toks (front ++ mark ++ last) ≤ last.length := by
  rcases partialLen_cases toks (front ++ mark ++ last) with none | ⟨tok, mem, bound, -, ends⟩
  · omega
  generalize partialLen toks (front ++ mark ++ last) = n at bound ends ⊢
  by_contra long
  have size : (tok.take n).length = n := by
    rw [List.length_take]
    omega
  have proper : tok.take n <+: tok.dropLast := by
    rw [List.dropLast_eq_take]
    exact List.take_prefix_take_left bound
  -- The last `n` characters of the text reach into the marker, or over its beginning.
  by_cases within : n ≤ mark.length + last.length
  · have tail : mark.drop (mark.length + last.length - n) ++ last <:+ front ++ mark ++ last := by
      rw [List.append_assoc]
      refine List.IsSuffix.trans ?_ (List.suffix_append _ _)
      rw [← List.drop_append_of_le_length (by omega)]
      exact List.drop_suffix _ _
    have same : mark.drop (mark.length + last.length - n) ++ last = tok.take n := by
      refine (List.suffix_of_suffix_length_le tail ends ?_).eq_of_length ?_ <;>
        simp only [List.length_append, List.length_drop, size] <;> omega
    rcases Nat.eq_zero_or_pos (mark.length + last.length - n) with zero | positive
    · rw [zero, List.drop_zero] at same
      exact inside tok mem ((same ▸ (List.prefix_append mark last).isInfix).trans proper.isInfix)
    · refine across tok mem _ (by omega) positive ?_
      exact (same ▸ List.prefix_append _ last).trans (List.take_prefix _ _)
  · have tail : mark ++ last <:+ tok.take n := by
      refine List.suffix_of_suffix_length_le ?_ ends ?_
      · rw [List.append_assoc]
        exact List.suffix_append _ _
      · simp only [List.length_append, size]
        omega
    exact inside tok mem (((List.prefix_append mark last).isInfix.trans tail.isInfix).trans
      proper.isInfix)

/-- All but the last character of a marker is what is held back at the end of a text, when no other
marker goes on for longer with these characters in it. -/
theorem partialLen_of_dropLast {tok : List α} (mem : tok ∈ toks)
    (longest : ∀ tok' ∈ toks, tok.dropLast <:+: tok' → tok'.length ≤ tok.length) (front : List α) :
    partialLen toks (front ++ tok.dropLast) = tok.length - 1 := by
  refine le_antisymm ?_ ?_
  · rcases partialLen_cases toks (front ++ tok.dropLast) with none | ⟨tok', mem', bound, -, ends⟩
    · omega
    generalize partialLen toks (front ++ tok.dropLast) = n at bound ends ⊢
    by_contra long
    have contained : tok.dropLast <:+ tok'.take n := by
      refine List.suffix_of_suffix_length_le (List.suffix_append _ _) ends ?_
      simp only [List.length_dropLast, List.length_take]
      omega
    have short := longest tok' mem' (contained.isInfix.trans (List.take_prefix _ _).isInfix)
    omega
  · refine le_partialLen mem le_rfl ?_ ?_
    · simp
    · rw [← List.dropLast_eq_take]
      exact List.suffix_append _ _

/-! ## Removing a marker -/

/-- The text without its occurrences of a marker, found from left to right; `skip` characters of the
last one are still to be left out. -/
def removeFrom (sub : List α) : Nat → List α → List α
  | _, [] => []
  | skip + 1, _ :: text => removeFrom sub skip text
  | 0, c :: text =>
    if sub <+: c :: text then removeFrom sub (sub.length - 1) text else c :: removeFrom sub 0 text

/-- The text without any occurrence of a marker. -/
def removeAll (sub text : List α) : List α := removeFrom sub 0 text

def removeFirst (sub text : List α) : List α :=
  match splitSub sub text with
  | some (left, right) => left ++ right
  | none => text

theorem removeFrom_append (sub : List α) (skipped text : List α) :
    removeFrom sub skipped.length (skipped ++ text) = removeFrom sub 0 text := by
  induction skipped with
  | nil => rfl
  | cons c skipped ih => exact ih

theorem removeAll_skip {sub front text : List α}
    (clear : ClearBelow sub front.length (front ++ text)) :
    removeAll sub (front ++ text) = front ++ removeAll sub text := by
  induction front with
  | nil => rfl
  | cons c front ih =>
    have here : ¬ sub <+: c :: (front ++ text) := clear 0 (by simp)
    have later : ClearBelow sub front.length (front ++ text) := fun d below => by
      simpa using clear (d + 1) (by simpa using below)
    rw [removeAll, List.cons_append, removeFrom, if_neg here]
    exact congrArg (c :: ·) (ih later)

theorem removeAll_of_free (free : ¬ sub <:+: text) :
    removeAll sub text = text := by
  have whole := @removeAll_skip _ _ sub text [] (clearBelow_of_free (by simpa using free) _)
  simpa [removeAll, removeFrom] using whole

theorem removeAll_split {sub left right : List α} (nonempty : sub ≠ [])
    (clear : ClearBelow sub left.length (left ++ sub ++ right)) :
    removeAll sub (left ++ sub ++ right) = left ++ removeAll sub right := by
  rw [List.append_assoc] at clear ⊢
  rw [removeAll_skip clear]
  congr 1
  obtain ⟨c, rest, rfl⟩ := List.exists_cons_of_ne_nil nonempty
  have here : c :: rest <+: c :: (rest ++ right) := List.prefix_append (c :: rest) right
  rw [removeAll, List.cons_append, removeFrom, if_pos here]
  exact removeFrom_append (c :: rest) rest right

end FreeSwarm.Foundation
