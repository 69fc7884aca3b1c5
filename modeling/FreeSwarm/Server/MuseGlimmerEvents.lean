import FreeSwarm.Foundation.RemoveMarks
import FreeSwarm.Server.MuseGlimmerParser

/-!
# What a Muse Glimmer drain looks for

Markers and headerless switches in a growing text. One that is complete in a part of the text stays
where it is, and one that starts no later than a complete marker is complete itself. What may still
become one is held back, except a switch whose recipient has `to=` in its name.
-/

namespace FreeSwarm.Server

open FreeSwarm.Foundation

/-- What is held back of a text that may still become a switch. -/
def switchHold (text : List Char) : Nat :=
  match lastTail recipientMark (text.drop (text.length - atemHoldWindow)) with
  | some tail => if switchPending tail then tail.length else 0
  | none => 0

/-- The beginnings of `to=`. -/
def markStarts : List (List Char) := ["t".toList, "to".toList]

theorem headed_atemAllTokens : Headed '<' atemAllTokens := ⟨by decide, by decide, by decide⟩

theorem headed_atemClosingTokens : Headed '<' atemClosingTokens := ⟨by decide, by decide, by decide⟩

theorem atemMessage_mem : atemMessage ∈ atemAllTokens := by decide

theorem atemStart_mem : atemStart ∈ atemAllTokens := by decide

theorem atemClosing_mem : ∀ tok ∈ atemClosingTokens, tok ∈ atemAllTokens := by decide

section
attribute [local simp] inlineHere inlineHeader lastTail

variable {text ext tail name rest tok : List Char} {d m pos : Nat}

/-! ## Headerless switches -/

def SwitchAt (name text : List Char) : Prop :=
  name ≠ [] ∧ name.length ≤ recipientMax ∧ (∀ c ∈ name, nameChar c = true) ∧
    recipientMark ++ (name ++ atemMessage) <+: text

theorem takeWhile_name (plain : ∀ c ∈ name, nameChar c = true) (rest : List Char) :
    (name ++ (atemMessage ++ rest)).takeWhile nameChar = name := by
  rw [List.takeWhile_append_of_pos plain]
  have stops : (atemMessage ++ rest).takeWhile nameChar = [] := rfl
  rw [stops, List.append_nil]

theorem inlineHere_eq_some_iff : inlineHere text = some name ↔ SwitchAt name text := by
  constructor
  · intro found
    simp only [inlineHere] at found
    split_ifs at found with mark ok
    cases found
    obtain ⟨rest, rfl⟩ := mark
    rw [List.drop_left] at *
    obtain ⟨some_, short, ⟨after, hafter⟩⟩ := ok
    refine ⟨some_, short, fun c mem => List.mem_takeWhile_imp mem, after, ?_⟩
    rw [List.append_assoc, List.append_assoc, hafter]
    congr 1
    have whole := List.prefix_iff_eq_append.mp (List.takeWhile_prefix (p := nameChar) (l := rest))
    exact whole
  · rintro ⟨some_, short, plain, after, rfl⟩
    have whole : recipientMark ++ (name ++ atemMessage) ++ after =
        recipientMark ++ (name ++ (atemMessage ++ after)) := by
      simp only [List.append_assoc]
    rw [whole, inlineHere, if_pos (List.prefix_append _ _)]
    simp only [List.drop_left, takeWhile_name plain]
    rw [if_pos ⟨some_, short, List.prefix_append _ _⟩]

theorem SwitchAt.unique {name' : List Char} (at_ : SwitchAt name text) (at' : SwitchAt name' text) :
    name = name' :=
  Option.some.inj ((inlineHere_eq_some_iff.mpr at_).symm.trans (inlineHere_eq_some_iff.mpr at'))

theorem SwitchAt.append (at_ : SwitchAt name text) (ext : List Char) : SwitchAt name (text ++ ext) :=
  ⟨at_.1, at_.2.1, at_.2.2.1, at_.2.2.2.trans (List.prefix_append _ _)⟩

theorem length_switch (name : List Char) :
    (recipientMark ++ (name ++ atemMessage)).length = inlineLength name := by
  simp [inlineLength, Nat.add_assoc]

theorem SwitchAt.length_le (at_ : SwitchAt name text) : inlineLength name ≤ text.length :=
  length_switch name ▸ at_.2.2.2.length_le

theorem SwitchAt.of_append (at_ : SwitchAt name (text ++ ext)) (fits : inlineLength name ≤ text.length) :
    SwitchAt name text :=
  ⟨at_.1, at_.2.1, at_.2.2.1, List.prefix_of_prefix_length_le at_.2.2.2 (List.prefix_append _ _)
    (length_switch name ▸ fits)⟩

theorem SwitchAt.message (at_ : SwitchAt name (text.drop d)) :
    atemMessage <+: text.drop (d + recipientMark.length + name.length) := by
  obtain ⟨-, -, -, after, whole⟩ := at_
  rw [Nat.add_assoc, ← List.drop_drop, ← whole]
  simp only [List.append_assoc]
  rw [← List.drop_drop, List.drop_left, List.drop_left]
  exact List.prefix_append _ _

theorem SwitchAt.no_marker (at_ : SwitchAt name (text.drop d)) (mem : tok ∈ atemAllTokens)
    (here : tok <+: text.drop m) (behind : d ≤ m) :
    d + recipientMark.length + name.length ≤ m := by
  by_contra inside
  obtain ⟨-, -, plain, after, whole⟩ := at_
  have char : text[m]? = some '<' := by
    obtain ⟨rest, hrest⟩ := here
    have first := headed_atemAllTokens.head tok mem
    rw [← List.head?_drop, ← hrest]
    cases tok with
    | nil => exact absurd first (by simp)
    | cons c tail => exact first
  have same : (recipientMark ++ name)[m - d]? = some '<' := by
    have there : (text.drop d)[m - d]? = some '<' := by
      rw [List.getElem?_drop, ← char]
      congr 1
      omega
    rw [← whole, ← List.append_assoc, List.append_assoc _ atemMessage,
      List.getElem?_append_left (by rw [List.length_append]; omega)] at there
    exact there
  have inName := List.mem_of_getElem? same
  rcases List.mem_append.mp inName with h | h
  · exact absurd h (by decide)
  · exact absurd (plain _ h) (by decide)

theorem marker_complete {tok' : List Char} (mem : tok ∈ atemAllTokens) (mem' : tok' ∈ atemAllTokens)
    (here : tok <+: text.drop m) (room : m + tok.length ≤ text.length)
    (there : tok' <+: (text ++ ext).drop d) (before : d ≤ m) : d + tok'.length ≤ text.length := by
  have grown : tok <+: (text ++ ext).drop m := by
    rw [List.drop_append_of_le_length (by omega)]
    exact here.trans (List.prefix_append _ _)
  rcases Nat.lt_or_eq_of_le before with h | rfl
  · by_contra beyond
    exact headed_atemAllTokens.no_overlap mem' mem there grown h (by
      have positive := List.length_pos_iff.mpr (headed_atemAllTokens.ne_nil mem)
      omega)
  · rcases List.prefix_or_prefix_of_prefix there grown with h | h
    · rwa [headed_atemAllTokens.apart tok' mem' tok mem h]
    · rwa [← headed_atemAllTokens.apart tok mem tok' mem' h]

theorem switch_complete (mem : tok ∈ atemAllTokens) (here : tok <+: text.drop m)
    (room : m + tok.length ≤ text.length) (there : SwitchAt name ((text ++ ext).drop d))
    (before : d ≤ m) : SwitchAt name (text.drop d) ∧ d + inlineLength name ≤ text.length := by
  have grown : tok <+: (text ++ ext).drop m := by
    rw [List.drop_append_of_le_length (by omega)]
    exact here.trans (List.prefix_append _ _)
  have atMost := there.no_marker mem grown before
  have fits := marker_complete mem atemMessage_mem here room there.message atMost
  have whole : d + inlineLength name ≤ text.length := by
    rw [inlineLength]
    omega
  rw [List.drop_append_of_le_length (by omega)] at there
  exact ⟨there.of_append (by rw [List.length_drop]; omega), whole⟩

theorem inlineHeader_eq_none_iff :
    inlineHeader text = none ↔ ∀ d name, ¬ SwitchAt name (text.drop d) := by
  have nothing : ∀ name, ¬ SwitchAt name [] := by
    intro name at_
    have long := at_.length_le
    have positive : 0 < recipientMark.length := by decide
    rw [inlineLength, List.length_nil] at long
    omega
  induction text with
  | nil =>
    refine ⟨fun _ d name => ?_, fun _ => rfl⟩
    rw [List.drop_nil]
    exact nothing name
  | cons c text ih =>
    rw [inlineHeader]
    cases found : inlineHere (c :: text) with
    | some name =>
      refine ⟨fun absurd_ => absurd absurd_ (by simp), fun free => ?_⟩
      exact absurd (inlineHere_eq_some_iff.mp found) (free 0 name)
    | none =>
      simp only [Option.map_eq_none_iff, ih]
      constructor
      · intro free d name
        cases d with
        | zero =>
          rw [List.drop_zero, ← inlineHere_eq_some_iff, found]
          simp
        | succ d => exact free d name
      · exact fun free d name => free (d + 1) name

theorem inlineHeader_spec (found : inlineHeader text = some (pos, name)) :
    SwitchAt name (text.drop pos) ∧ ∀ d < pos, ∀ name', ¬ SwitchAt name' (text.drop d) := by
  induction text generalizing pos with
  | nil => exact absurd found (by simp [inlineHeader])
  | cons c text ih =>
    rw [inlineHeader] at found
    cases here : inlineHere (c :: text) with
    | some name' =>
      rw [here] at found
      cases Option.some.inj found
      exact ⟨inlineHere_eq_some_iff.mp here, fun d below => absurd below (Nat.not_lt_zero d)⟩
    | none =>
      rw [here] at found
      obtain ⟨⟨pos', name'⟩, later, same⟩ := Option.map_eq_some_iff.mp found
      cases same
      obtain ⟨at_, free⟩ := ih later
      refine ⟨at_, fun d below name'' => ?_⟩
      cases d with
      | zero =>
        rw [List.drop_zero, ← inlineHere_eq_some_iff, here]
        simp
      | succ d => exact free d (by omega) name''

theorem inlineHeader_eq (at_ : SwitchAt name (text.drop pos))
    (free : ∀ d < pos, ∀ name', ¬ SwitchAt name' (text.drop d)) :
    inlineHeader text = some (pos, name) := by
  cases found : inlineHeader text with
  | none => exact absurd at_ (inlineHeader_eq_none_iff.mp found pos name)
  | some first =>
    obtain ⟨pos', name'⟩ := first
    obtain ⟨at', free'⟩ := inlineHeader_spec found
    have atLeast : pos ≤ pos' := not_lt.mp fun before => free pos' before name' at'
    have atMost : pos' ≤ pos := not_lt.mp fun before => free' pos before name at_
    obtain rfl := le_antisymm atLeast atMost
    rw [at_.unique at']

theorem switch_room (at_ : SwitchAt name (text.drop pos)) : pos + inlineLength name ≤ text.length := by
  have long := at_.length_le
  have positive : 0 < inlineLength name := by
    rw [inlineLength]
    exact Nat.lt_of_lt_of_le (show 0 < recipientMark.length by decide) (by omega)
  rw [List.length_drop] at long
  omega

/-! ## Holding back -/

theorem lastTail_spec {sub : List Char} (found : lastTail sub text = some tail) :
    tail <:+ text ∧ sub <+: tail := by
  induction text with
  | nil => exact absurd found (by simp [lastTail])
  | cons c text ih =>
    rw [lastTail] at found
    cases later : lastTail sub text with
    | some tail' =>
      rw [later] at found
      cases found
      exact ⟨(ih later).1.trans (List.suffix_cons _ _), (ih later).2⟩
    | none =>
      rw [later] at found
      simp only at found
      split_ifs at found with here
      cases found
      exact ⟨List.suffix_rfl, here⟩

theorem lastTail_eq {sub : List Char} (nonempty : sub ≠ []) (here : sub <+: text.drop d)
    (last : ∀ d', d < d' → ¬ sub <+: text.drop d') : lastTail sub text = some (text.drop d) := by
  induction text generalizing d with
  | nil =>
    rw [List.drop_nil] at here
    exact absurd (List.prefix_nil.mp here) nonempty
  | cons c text ih =>
    rw [lastTail]
    cases d with
    | succ d => rw [ih (d := d) here fun d' later => last (d' + 1) (by omega), List.drop_succ_cons]
    | zero =>
      have absent : lastTail sub text = none := by
        cases found : lastTail sub text with
        | none => rfl
        | some tail =>
          obtain ⟨⟨front, rfl⟩, starts⟩ := lastTail_spec found
          refine absurd ?_ (last (front.length + 1) (by omega))
          rw [List.drop_succ_cons, List.drop_left]
          exact starts
      rw [absent]
      simp only [List.drop_zero]
      exact if_pos here

theorem atemHoldLen_eq (text : List Char) :
    atemHoldLen text = ["t".toList, "to".toList].foldl
      (fun best start => if best < start.length ∧ start <:+ text then start.length else best)
      (max (partialLen atemAllTokens text) (switchHold text)) := by
  unfold atemHoldLen switchHold
  cases found : lastTail recipientMark (text.drop (text.length - atemHoldWindow)) with
  | none => simp only [found, Nat.max_zero]
  | some tail =>
    by_cases pending : switchPending tail
    · simp only [found, pending, if_true]
    · simp only [found, pending, if_false, Nat.max_zero]

theorem foldl_hold (starts : List (List Char)) (text : List Char) (best : Nat) :
    let held := starts.foldl
      (fun best start => if best < start.length ∧ start <:+ text then start.length else best) best
    best ≤ held ∧ (∀ start ∈ starts, start <:+ text → start.length ≤ held) ∧
      (held = best ∨ ∃ start ∈ starts, start <:+ text ∧ held = start.length) := by
  induction starts generalizing best with
  | nil => exact ⟨le_rfl, fun start mem => absurd mem List.not_mem_nil, .inl rfl⟩
  | cons start starts ih =>
    obtain ⟨grows, bound, source⟩ :=
      ih (if best < start.length ∧ start <:+ text then start.length else best)
    rw [List.foldl_cons]
    refine ⟨?_, ?_, ?_⟩
    · refine le_trans ?_ grows
      split_ifs with longer
      · exact longer.1.le
      · exact le_rfl
    · intro start' mem ends
      rcases List.mem_cons.mp mem with rfl | mem
      · refine le_trans ?_ grows
        split_ifs with longer
        · exact le_rfl
        · exact not_lt.mp fun small => longer ⟨small, ends⟩
      · exact bound start' mem ends
    · rcases source with same | ⟨start', mem, ends, same⟩
      · split_ifs at same with longer
        · exact .inr ⟨start, List.mem_cons_self, longer.2, by simpa [longer] using same⟩
        · exact .inl (by simpa [longer] using same)
      · exact .inr ⟨start', List.mem_cons_of_mem _ mem, ends, same⟩

/-- The beginnings of `to=` add to what is held back only themselves. -/
theorem atemHoldLen_cases (text : List Char) :
    max (partialLen atemAllTokens text) (switchHold text) ≤ atemHoldLen text ∧
      (∀ start ∈ markStarts, start <:+ text → start.length ≤ atemHoldLen text) ∧
      (atemHoldLen text = max (partialLen atemAllTokens text) (switchHold text) ∨
        ∃ start ∈ markStarts, start <:+ text ∧ atemHoldLen text = start.length) := by
  rw [atemHoldLen_eq]
  exact foldl_hold markStarts text _

theorem switchHold_cases (text : List Char) :
    switchHold text = 0 ∨ ∃ tail, tail <:+ text ∧ recipientMark <+: tail ∧
      switchHold text = tail.length := by
  unfold switchHold
  cases found : lastTail recipientMark (text.drop (text.length - atemHoldWindow)) with
  | none => exact .inl rfl
  | some tail =>
    obtain ⟨inWindow, starts⟩ := lastTail_spec found
    simp only
    split_ifs
    · exact .inr ⟨tail, inWindow.trans (List.drop_suffix _ _), starts, rfl⟩
    · exact .inl rfl

theorem held_cases (text : List Char) :
    ∃ held, held <:+ text ∧ held.length = atemHoldLen text ∧
      (held = [] ∨ held.head? = some '<' ∨ recipientMark <+: held ∨ held <+: recipientMark) := by
  obtain ⟨-, -, same | ⟨start, mem, ends, same⟩⟩ := atemHoldLen_cases text
  · rcases Nat.le_total (partialLen atemAllTokens text) (switchHold text) with h | h
    · rw [max_eq_right h] at same
      rcases switchHold_cases text with zero | ⟨tail, ends, starts, size⟩
      · exact ⟨[], List.nil_suffix, by rw [same, zero]; rfl, .inl rfl⟩
      · exact ⟨tail, ends, by rw [same, size], .inr (.inr (.inl starts))⟩
    · rw [max_eq_left h] at same
      rcases partialLen_cases atemAllTokens text with zero | ⟨tok, mem, bound, -, ends⟩
      · exact ⟨[], List.nil_suffix, by rw [same, zero]; rfl, .inl rfl⟩
      · refine ⟨_, ends, ?_, ?_⟩
        · rw [same, List.length_take]
          omega
        · cases size : partialLen atemAllTokens text with
          | zero => exact .inl (List.take_zero)
          | succ n =>
            have first := headed_atemAllTokens.head tok mem
            cases tok with
            | nil => exact absurd first (by simp)
            | cons c rest => exact .inr (.inl first)
  · refine ⟨start, ends, same.symm, .inr (.inr (.inr ?_))⟩
    have both : ∀ start ∈ markStarts, start <+: recipientMark := by decide
    exact both start mem

theorem partialLen_le_atemHoldLen (text : List Char) :
    partialLen atemAllTokens text ≤ atemHoldLen text :=
  (le_max_left _ _).trans (atemHoldLen_cases text).1

theorem marker_held (mem : tok ∈ atemAllTokens) (here : tok <+: (text ++ ext).drop d)
    (beyond : text.length < d + tok.length) : text.length - atemHoldLen text ≤ d := by
  by_cases inside : d < text.length
  · have ends := take_suffix_of_overhang here (by omega) (by omega)
    have held := le_partialLen mem (by omega) (by omega) ends
    have bound := partialLen_le_atemHoldLen text
    omega
  · omega

theorem cutsNone_hold (text ext : List Char) :
    CutsNone atemAllTokens (text.take (text.length - atemHoldLen text))
      (text.drop (text.length - atemHoldLen text) ++ ext) := by
  intro tok mem d below occurs
  rw [← List.append_assoc, List.take_append_drop] at occurs
  have size : (text.take (text.length - atemHoldLen text)).length =
      text.length - atemHoldLen text := by
    rw [List.length_take]
    omega
  rw [size] at below ⊢
  by_contra beyond
  by_cases cut : text.length < d + tok.length
  · exact absurd (marker_held mem occurs cut) (by omega)
  -- A complete marker is not held back in part: no end of it starts like a marker or a switch.
  obtain ⟨held, ⟨front, whole⟩, heldSize, kind⟩ := held_cases text
  have frontSize : text.length - atemHoldLen text = front.length := by
    have count := congrArg List.length whole
    rw [List.length_append] at count
    omega
  rw [frontSize] at below beyond
  have part : tok.drop (front.length - d) <+: held := by
    have inText : tok <+: text.drop d := by
      rw [List.drop_append_of_le_length (by omega)] at occurs
      exact List.prefix_of_prefix_length_le occurs (List.prefix_append _ _)
        (by rw [List.length_drop]; omega)
    obtain ⟨rest, hrest⟩ := inText
    refine ⟨rest, ?_⟩
    rw [← List.drop_append_of_le_length (by omega), hrest, List.drop_drop, ← whole]
    have there : d + (front.length - d) = front.length := by omega
    rw [there, List.drop_left]
  have solid : ∀ tok ∈ atemAllTokens, ∀ k < tok.length, 0 < k →
      tok.drop k ≠ [] ∧ (tok.drop k).head? ≠ some '<' ∧
        ¬ recipientMark <+: tok.drop k ∧ ¬ tok.drop k <+: recipientMark := by decide
  obtain ⟨some_, first, noMark, noMark'⟩ := solid tok mem (front.length - d) (by omega) (by omega)
  rcases kind with rfl | lead | starts | starts
  · exact some_ (List.prefix_nil.mp part)
  · obtain ⟨c, tail, same⟩ := List.exists_cons_of_ne_nil some_
    obtain ⟨rest, rfl⟩ := part
    rw [same] at lead first
    exact first lead
  · rcases List.prefix_or_prefix_of_prefix part starts with h | h
    · exact noMark' h
    · exact noMark h
  · exact noMark' (part.trans starts)

/-- No `to=` starts in a switch but the one that starts it, when its recipient has none. -/
theorem recipientMark_once (plain : ¬ recipientMark <:+: name) {k : Nat} (later : 0 < k) :
    ¬ recipientMark <+: (recipientMark ++ (name ++ atemMessage)).drop k := by
  intro occurs
  have markLength : recipientMark.length = 3 := by decide
  by_cases inMark : k < recipientMark.length
  · rw [List.drop_append_of_le_length (by omega)] at occurs
    have apart : ∀ k < recipientMark.length, 0 < k →
        (recipientMark.drop k).head? ≠ recipientMark.head? ∧ recipientMark.drop k ≠ [] := by decide
    obtain ⟨differs, some_⟩ := apart k inMark later
    obtain ⟨c, tail, same⟩ := List.exists_cons_of_ne_nil some_
    rw [same] at occurs differs
    obtain ⟨rest, hrest⟩ := occurs
    have heads := congrArg List.head? hrest
    exact differs heads.symm
  rw [List.drop_append, List.drop_eq_nil_of_le (by omega), List.nil_append] at occurs
  by_cases fits : k - recipientMark.length + recipientMark.length ≤ name.length
  · exact plain (isInfix_of_prefix_drop_append occurs fits)
  by_cases beyond : name.length ≤ k - recipientMark.length
  · exact absurd (isInfix_of_prefix_drop_right occurs beyond) (by decide)
  · -- It would reach over the first character of the marker behind the name.
    have lead : (name ++ atemMessage)[name.length]? = some '<' := by
      rw [List.getElem?_append_right le_rfl, Nat.sub_self]
      rfl
    obtain ⟨rest, hrest⟩ := occurs
    have inside : recipientMark[name.length - (k - recipientMark.length)]? = some '<' := by
      have there : ((name ++ atemMessage).drop (k - recipientMark.length))[
          name.length - (k - recipientMark.length)]? = some '<' := by
        rw [List.getElem?_drop, ← lead]
        congr 1
        omega
      rwa [← hrest, List.getElem?_append_left (by omega)] at there
    exact absurd (List.mem_of_getElem? inside) (by decide)

theorem switch_held (at_ : SwitchAt name ((text ++ ext).drop d)) (plain : ¬ recipientMark <:+: name)
    (beyond : text.length < d + inlineLength name) : text.length - atemHoldLen text ≤ d := by
  by_cases inside : d < text.length
  swap
  · omega
  obtain ⟨some_, short, chars, starts⟩ := at_
  rw [List.drop_append_of_le_length (by omega)] at starts
  have tailSize : (text.drop d).length = text.length - d := List.length_drop
  obtain ⟨later, whole⟩ : text.drop d <+: recipientMark ++ (name ++ atemMessage) := by
    refine List.prefix_of_prefix_length_le (List.prefix_append _ ext) starts ?_
    rw [length_switch, tailSize]
    omega
  obtain ⟨bound, starts_, -⟩ := atemHoldLen_cases text
  have markLength : recipientMark.length = 3 := by decide
  have messageLength : atemMessage.length = 11 := by decide
  by_cases tiny : (text.drop d).length < recipientMark.length
  · have part : text.drop d <+: recipientMark :=
      List.prefix_of_prefix_length_le ⟨later, whole⟩ (List.prefix_append _ _) tiny.le
    have known : ∀ k < recipientMark.length, 0 < k →
        recipientMark.take k ∈ markStarts := by decide
    have held := starts_ (text.drop d) (by
      rw [List.prefix_iff_eq_take.mp part]
      exact known _ tiny (by omega)) (List.drop_suffix _ _)
    omega
  · obtain ⟨rest, hrest⟩ : recipientMark <+: text.drop d :=
      List.prefix_of_prefix_length_le (List.prefix_append _ _) ⟨later, whole⟩ (by omega)
    have restSize := congrArg List.length hrest
    rw [List.length_append] at restSize
    rw [inlineLength] at beyond
    simp only [recipientMax] at short
    have found : lastTail recipientMark (text.drop (text.length - atemHoldWindow)) =
        some (text.drop d) := by
      have near : text.length - atemHoldWindow ≤ d := by
        simp only [atemHoldWindow]
        omega
      have there : (text.drop (text.length - atemHoldWindow)).drop
          (d - (text.length - atemHoldWindow)) = text.drop d := by
        rw [List.drop_drop]
        congr 1
        omega
      rw [← there]
      refine lastTail_eq (by decide) (there ▸ ⟨rest, hrest⟩) fun d' behind occurs => ?_
      refine recipientMark_once plain (k := d' - (d - (text.length - atemHoldWindow))) (by omega) ?_
      rw [← whole]
      have same : (text.drop (text.length - atemHoldWindow)).drop d' =
          (text.drop d).drop (d' - (d - (text.length - atemHoldWindow))) := by
        rw [List.drop_drop, List.drop_drop]
        congr 1
        omega
      rw [same] at occurs
      by_cases within : d' - (d - (text.length - atemHoldWindow)) ≤ (text.drop d).length
      · rw [List.drop_append_of_le_length within]
        exact occurs.trans (List.prefix_append _ _)
      · rw [List.drop_eq_nil_of_le (by omega)] at occurs
        exact absurd (List.prefix_nil.mp occurs) (by decide)
    have pending : switchPending (text.drop d) := by
      rw [← hrest, List.append_assoc, List.append_cancel_left_eq] at whole
      have nameOf : rest.takeWhile nameChar = name.take rest.length := by
        by_cases inName : rest.length ≤ name.length
        · have part : rest <+: name :=
            List.prefix_of_prefix_length_le ⟨later, whole⟩ (List.prefix_append _ _) inName
          rw [← List.prefix_iff_eq_take.mp part]
          exact List.takeWhile_eq_self_iff.mpr fun c mem => chars c (part.subset mem)
        · obtain ⟨mark, rfl⟩ : name <+: rest :=
            List.prefix_of_prefix_length_le (List.prefix_append _ _) ⟨later, whole⟩ (by omega)
          rw [List.append_assoc, List.append_cancel_left_eq] at whole
          have lead : mark.head? = some '<' := by
            cases mark with
            | nil => simp at inName
            | cons c mark =>
              have heads := congrArg List.head? whole
              exact heads
          obtain ⟨c, mark', rfl⟩ := List.exists_cons_of_ne_nil
            (show mark ≠ [] by rintro rfl; exact absurd lead (by simp))
          obtain rfl : c = '<' := Option.some.inj lead
          rw [List.takeWhile_append_of_pos chars, List.takeWhile_cons_of_neg (by decide),
            List.append_nil, List.take_of_length_le (by simp)]
      simp only [switchPending, ← hrest, List.drop_left, nameOf, recipientMax]
      rw [List.take_take]
      by_cases inName : rest.length ≤ name.length
      · refine .inl ?_
        have part : rest <+: name :=
          List.prefix_of_prefix_length_le ⟨later, whole⟩ (List.prefix_append _ _) inName
        rw [Nat.min_eq_right (by omega)]
        exact (List.prefix_iff_eq_take.mp part).symm
      · refine .inr ?_
        rw [List.take_of_length_le (by omega)]
        refine ⟨some_, ?_⟩
        obtain ⟨mark, rfl⟩ : name <+: rest :=
          List.prefix_of_prefix_length_le (List.prefix_append _ _) ⟨later, whole⟩ (by omega)
        rw [List.append_assoc, List.append_cancel_left_eq] at whole
        rw [List.drop_left]
        exact ⟨later, whole⟩
    have held : switchHold text = (text.drop d).length := by
      unfold switchHold
      rw [found]
      exact if_pos pending
    have most := le_max_right (partialLen atemAllTokens text) (switchHold text)
    omega

end

end FreeSwarm.Server
