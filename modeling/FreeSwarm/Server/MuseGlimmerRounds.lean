import FreeSwarm.Server.MuseGlimmerEvents

/-!
# The rounds of a Muse Glimmer drain

A round that another one follows decides on markers and switches that are complete, so it does the
same when more text has arrived. A round that ends a drain gives away a part of the buffer in which
nothing starts that the next text could complete. No round cuts a marker, and each makes the buffer
shorter or leaves a segment, so that a drain ends.
-/

namespace FreeSwarm.Server

open FreeSwarm.Foundation

namespace MuseGlimmerReasoningParser

section
variable {text ext tok name : List Char} {d m pos stop : Nat} {kind : BodyEnd}

/-! ## Where a segment ends -/

/-- Something that ends a segment stands at a position. -/
def EndAt (text : List Char) (pos : Nat) : BodyEnd → Prop
  | .closer tok => tok ∈ atemClosingTokens ∧ tok <+: text.drop pos
  | .start => atemStart <+: text.drop pos
  | .inline name => SwitchAt name (text.drop pos)

theorem EndAt.marker (at_ : EndAt text pos kind) :
    ∃ tok ∈ atemAllTokens, ∃ m, pos ≤ m ∧ tok <+: text.drop m ∧ m + tok.length ≤ text.length := by
  have room : ∀ {tok : List Char} {m : Nat}, tok ∈ atemAllTokens → tok <+: text.drop m →
      m + tok.length ≤ text.length := by
    intro tok m mem here
    have long := here.length_le
    have positive := List.length_pos_iff.mpr (headed_atemAllTokens.ne_nil mem)
    rw [List.length_drop] at long
    omega
  cases kind with
  | closer tok =>
    have mem := atemClosing_mem tok at_.1
    exact ⟨tok, mem, pos, le_rfl, at_.2, room mem at_.2⟩
  | start => exact ⟨atemStart, atemStart_mem, pos, le_rfl, at_, room atemStart_mem at_⟩
  | inline name =>
    exact ⟨atemMessage, atemMessage_mem, _, Nat.le_add_right_of_le (Nat.le_add_right _ _),
      SwitchAt.message at_, room atemMessage_mem (SwitchAt.message at_)⟩

theorem EndAt.lt (at_ : EndAt text pos kind) : pos < text.length := by
  obtain ⟨tok, mem, m, behind, -, room⟩ := at_.marker
  have positive := List.length_pos_iff.mpr (headed_atemAllTokens.ne_nil mem)
  omega

theorem EndAt.append (at_ : EndAt text pos kind) (ext : List Char) : EndAt (text ++ ext) pos kind := by
  have inside := at_.lt
  cases kind with
  | closer tok =>
    refine ⟨at_.1, ?_⟩
    rw [List.drop_append_of_le_length (by omega)]
    exact at_.2.trans (List.prefix_append _ _)
  | start =>
    rw [EndAt, List.drop_append_of_le_length (by omega)]
    exact List.IsPrefix.trans at_ (List.prefix_append _ _)
  | inline name =>
    rw [EndAt, List.drop_append_of_le_length (by omega)]
    exact SwitchAt.append at_ ext

theorem EndAt.of_append (at_ : EndAt (text ++ ext) d kind) (mem : tok ∈ atemAllTokens)
    (here : tok <+: text.drop m) (room : m + tok.length ≤ text.length) (before : d ≤ m) :
    EndAt text d kind := by
  have part : ∀ {tok' : List Char}, tok' ∈ atemAllTokens → tok' <+: (text ++ ext).drop d →
      tok' <+: text.drop d := by
    intro tok' mem' there
    have fits := marker_complete mem mem' here room there before
    rw [List.drop_append_of_le_length (by omega)] at there
    exact List.prefix_of_prefix_length_le there (List.prefix_append _ _)
      (by rw [List.length_drop]; omega)
  cases kind with
  | closer tok' => exact ⟨at_.1, part (atemClosing_mem tok' at_.1) at_.2⟩
  | start => exact part atemStart_mem at_
  | inline name => exact (switch_complete mem here room at_ before).1

theorem EndAt.unique {kind' : BodyEnd} (at_ : EndAt text pos kind) (at' : EndAt text pos kind') :
    kind = kind' := by
  have differ : ∀ {tok name : List Char}, tok ∈ atemAllTokens → tok <+: text.drop pos →
      SwitchAt name (text.drop pos) → False := by
    intro tok name mem here switch
    have starts := (List.prefix_append _ _).trans switch.2.2.2
    have apart : ∀ tok ∈ atemAllTokens, ¬ tok <+: recipientMark ∧ ¬ recipientMark <+: tok := by
      decide
    rcases List.prefix_or_prefix_of_prefix here starts with h | h
    · exact (apart tok mem).1 h
    · exact (apart tok mem).2 h
  have same : ∀ {tok tok' : List Char}, tok ∈ atemAllTokens → tok' ∈ atemAllTokens →
      tok <+: text.drop pos → tok' <+: text.drop pos → tok = tok' := by
    intro tok tok' mem mem' here there
    rcases List.prefix_or_prefix_of_prefix here there with h | h
    · exact headed_atemAllTokens.apart tok mem tok' mem' h
    · exact (headed_atemAllTokens.apart tok' mem' tok mem h).symm
  have notClosing : atemStart ∉ atemClosingTokens := by decide
  cases kind with
  | closer tok =>
    cases kind' with
    | closer tok' =>
      rw [same (atemClosing_mem tok at_.1) (atemClosing_mem tok' at'.1) at_.2 at'.2]
    | start =>
      exact absurd at_.1 (same (atemClosing_mem tok at_.1) atemStart_mem at_.2 at' ▸ notClosing)
    | inline name => exact (differ (atemClosing_mem tok at_.1) at_.2 at').elim
  | start =>
    cases kind' with
    | closer tok' =>
      exact absurd at'.1 (same (atemClosing_mem tok' at'.1) atemStart_mem at'.2 at_ ▸ notClosing)
    | start => rfl
    | inline name => exact (differ atemStart_mem at_ at').elim
  | inline name =>
    cases kind' with
    | closer tok' => exact (differ (atemClosing_mem tok' at'.1) at'.2 at_).elim
    | start => exact (differ atemStart_mem at' at_).elim
    | inline name' => rw [SwitchAt.unique at_ at']

def closest (best : Nat × Option BodyEnd) (found : Option (Nat × BodyEnd)) : Nat × Option BodyEnd :=
  match found with
  | some (pos, kind) => if pos < best.1 then (pos, some kind) else best
  | none => best

def endsFound (text : List Char) : List (Option (Nat × BodyEnd)) :=
  atemClosingTokens.map (fun tok => (findSub tok text).map fun pos => (pos, .closer tok)) ++
    [(findSub atemStart text).map fun pos => (pos, .start),
      (inlineHeader text).map fun (pos, name) => (pos, .inline name)]

theorem segmentBodyEnd_eq_foldl (text : List Char) :
    segmentBodyEnd text = (endsFound text).foldl closest (text.length, none) := by
  unfold segmentBodyEnd
  rw [endsFound, List.foldl_append, List.foldl_map, List.foldl_cons, List.foldl_cons,
    List.foldl_nil]
  generalize code : atemClosingTokens.foldl _ (text.length, none) = best
  have closers : atemClosingTokens.foldl (fun best tok => closest best
      ((findSub tok text).map fun pos => (pos, BodyEnd.closer tok))) (text.length, none) = best := by
    rw [← code]
    refine List.foldl_ext _ _ _ fun best tok _ => ?_
    cases findSub tok text with
    | none => exact rfl
    | some pos => exact rfl
  rw [closers]
  cases findSub atemStart text with
  | none =>
    cases inlineHeader text with
    | none => rfl
    | some found => rfl
  | some pos =>
    cases inlineHeader text with
    | none => rfl
    | some found => rfl

theorem foldl_closest (cands : List (Option (Nat × BodyEnd))) (best : Nat × Option BodyEnd) :
    (cands.foldl closest best = best ∨ ∃ pos kind, some (pos, kind) ∈ cands ∧
        cands.foldl closest best = (pos, some kind)) ∧
      (cands.foldl closest best).1 ≤ best.1 ∧
      ∀ pos kind, some (pos, kind) ∈ cands → (cands.foldl closest best).1 ≤ pos := by
  induction cands generalizing best with
  | nil => exact ⟨.inl rfl, le_rfl, fun pos kind mem => absurd mem List.not_mem_nil⟩
  | cons cand cands ih =>
    obtain ⟨source, old, new⟩ := ih (closest best cand)
    have here : (closest best cand = best ∨ ∃ pos kind, cand = some (pos, kind) ∧
          closest best cand = (pos, some kind)) ∧ (closest best cand).1 ≤ best.1 ∧
        ∀ pos kind, cand = some (pos, kind) → (closest best cand).1 ≤ pos := by
      cases cand with
      | none => exact ⟨.inl rfl, le_rfl, fun pos kind absurd_ => absurd absurd_ (by simp)⟩
      | some found =>
        obtain ⟨pos, kind⟩ := found
        simp only [closest]
        split_ifs with nearer
        · refine ⟨.inr ⟨pos, kind, rfl, rfl⟩, nearer.le, fun pos' kind' same => ?_⟩
          exact (Prod.mk.inj (Option.some.inj same)).1.le
        · refine ⟨.inl rfl, le_rfl, fun pos' kind' same => ?_⟩
          exact (Prod.mk.inj (Option.some.inj same)).1 ▸ not_lt.mp nearer
    rw [List.foldl_cons]
    refine ⟨?_, old.trans here.2.1, fun pos kind mem => ?_⟩
    · rcases source with same | ⟨pos, kind, mem, same⟩
      · rcases here.1 with kept | ⟨pos, kind, this, taken⟩
        · exact .inl (same.trans kept)
        · exact .inr ⟨pos, kind, this ▸ List.mem_cons_self, same.trans taken⟩
      · exact .inr ⟨pos, kind, List.mem_cons_of_mem _ mem, same⟩
    · rcases List.mem_cons.mp mem with this | mem
      · exact old.trans (here.2.2 pos kind this.symm)
      · exact new pos kind mem

theorem mem_endsFound (found : some (pos, kind) ∈ endsFound text) : EndAt text pos kind := by
  rcases List.mem_append.mp found with h | h
  · obtain ⟨tok, mem, same⟩ := List.mem_map.mp h
    obtain ⟨pos', at_, pair⟩ := Option.map_eq_some_iff.mp same
    cases pair
    exact ⟨mem, findSub_occurs at_⟩
  · rcases List.mem_cons.mp h with same | h
    · obtain ⟨pos', at_, pair⟩ := Option.map_eq_some_iff.mp same.symm
      cases pair
      exact findSub_occurs at_
    · obtain ⟨⟨pos', name⟩, at_, pair⟩ :=
        Option.map_eq_some_iff.mp (List.mem_singleton.mp h).symm
      cases pair
      exact (inlineHeader_spec at_).1

theorem EndAt.found (at_ : EndAt text pos kind) :
    ∃ pos' kind', pos' ≤ pos ∧ some (pos', kind') ∈ endsFound text := by
  have first : ∀ {tok : List Char}, tok <+: text.drop pos → ∃ pos', findSub tok text = some pos' ∧
      pos' ≤ pos := by
    intro tok here
    cases found : findSub tok text with
    | none => exact absurd (isInfix_iff_exists_drop.mpr ⟨pos, here⟩) (findSub_eq_none_iff.mp found)
    | some pos' => exact ⟨pos', rfl, not_lt.mp fun before => findSub_least found pos before here⟩
  cases kind with
  | closer tok =>
    obtain ⟨pos', found, early⟩ := first at_.2
    refine ⟨pos', .closer tok, early, List.mem_append_left _ (List.mem_map.mpr ⟨tok, at_.1, ?_⟩)⟩
    rw [found, Option.map_some]
  | start =>
    obtain ⟨pos', found, early⟩ := first at_
    refine ⟨pos', .start, early, List.mem_append_right _ (List.mem_cons.mpr (.inl ?_))⟩
    rw [found, Option.map_some]
  | inline name =>
    cases found : inlineHeader text with
    | none => exact absurd at_ (inlineHeader_eq_none_iff.mp found pos name)
    | some first =>
      obtain ⟨pos', name'⟩ := first
      refine ⟨pos', .inline name', ?_, List.mem_append_right _
        (List.mem_cons_of_mem _ (List.mem_singleton.mpr ?_))⟩
      · exact not_lt.mp fun before => (inlineHeader_spec found).2 pos before name at_
      · rw [found, Option.map_some]

theorem segmentBodyEnd_spec (found : segmentBodyEnd text = (stop, some kind)) :
    EndAt text stop kind ∧ ∀ d < stop, ∀ kind', ¬ EndAt text d kind' := by
  obtain ⟨source, -, bound⟩ := foldl_closest (endsFound text) (text.length, none)
  rw [← segmentBodyEnd_eq_foldl, found] at source bound
  rcases source with absurd_ | ⟨pos, kind', mem, same⟩
  · exact absurd (Prod.mk.inj absurd_).2 (by simp)
  · obtain ⟨rfl, same'⟩ := Prod.mk.inj same
    obtain rfl := Option.some.inj same'
    refine ⟨mem_endsFound mem, fun d below kind' at_ => ?_⟩
    obtain ⟨pos', kind'', early, mem'⟩ := at_.found
    have least := bound pos' kind'' mem'
    simp only at least
    omega

theorem segmentBodyEnd_none (found : segmentBodyEnd text = (stop, none)) :
    ∀ d kind, ¬ EndAt text d kind := by
  obtain ⟨source, -, bound⟩ := foldl_closest (endsFound text) (text.length, none)
  rw [← segmentBodyEnd_eq_foldl, found] at source bound
  intro d kind at_
  obtain ⟨pos', kind', early, mem⟩ := at_.found
  have least := bound pos' kind' mem
  rcases source with same | ⟨pos, kind'', -, same⟩
  · obtain ⟨rfl, -⟩ := Prod.mk.inj same
    have inside := at_.lt
    simp only at least
    omega
  · exact absurd (Prod.mk.inj same).2 (by simp)

theorem segmentBodyEnd_eq (at_ : EndAt text stop kind)
    (free : ∀ d < stop, ∀ kind', ¬ EndAt text d kind') :
    segmentBodyEnd text = (stop, some kind) := by
  cases found : segmentBodyEnd text with
  | mk stop' matched =>
    cases matched with
    | none => exact absurd at_ (segmentBodyEnd_none found stop kind)
    | some kind' =>
      obtain ⟨at', free'⟩ := segmentBodyEnd_spec found
      have atLeast : stop ≤ stop' := not_lt.mp fun before => free stop' before kind' at'
      have atMost : stop' ≤ stop := not_lt.mp fun before => free' stop before kind at_
      obtain rfl := le_antisymm atLeast atMost
      rw [at_.unique at']

theorem segmentBodyEnd_append (found : segmentBodyEnd text = (stop, some kind)) (ext : List Char) :
    segmentBodyEnd (text ++ ext) = (stop, some kind) := by
  obtain ⟨at_, free⟩ := segmentBodyEnd_spec found
  obtain ⟨tok, mem, m, behind, here, room⟩ := at_.marker
  exact segmentBodyEnd_eq (at_.append ext) fun d below kind' there =>
    free d below kind' (there.of_append mem here room (by omega))

theorem segmentBodyEnd_free (free : ∀ d kind, ¬ EndAt text d kind) :
    (segmentBodyEnd text).2 = none := by
  cases found : segmentBodyEnd text with
  | mk stop matched =>
    cases matched with
    | none => rfl
    | some kind => exact absurd (segmentBodyEnd_spec found).1 (free stop kind)

/-! ## What a round goes by -/

/-- What a round looks for: between segments closing markers are passed over. -/
def watched : AtemMode → BodyEnd → Prop
  | .body, _ => True
  | .seek, .closer _ => False
  | .seek, .start => True
  | .seek, .inline _ => True

/-- Nothing a round looks for starts in the first characters of a text. -/
def Quiet (mode : AtemMode) (text : List Char) (n : Nat) : Prop :=
  ∀ d < n, ∀ kind, watched mode kind → ¬ EndAt text d kind

theorem Quiet.mono {mode : AtemMode} {n n' : Nat} (quiet : Quiet mode text n) (fewer : n' ≤ n) :
    Quiet mode text n' :=
  fun d below => quiet d (by omega)

theorem Quiet.append {mode : AtemMode} {n : Nat} (quiet : Quiet mode text n)
    (mem : tok ∈ atemAllTokens) (here : tok <+: text.drop m) (room : m + tok.length ≤ text.length)
    (before : n ≤ m) (ext : List Char) : Quiet mode (text ++ ext) n :=
  fun d below kind seen at_ => quiet d below kind seen (at_.of_append mem here room (by omega))

end

section
variable {p : MuseGlimmerReasoningParser} {ext tok name : List Char} {pos s : Nat} {kind : BodyEnd}
  {final : Bool}

theorem seekRound_start (at_ : EndAt p.buffer s .start) (quiet : Quiet .seek p.buffer s) :
    p.seekRound final = p.startRound final s := by
  have found : findSub atemStart p.buffer = some s :=
    findSub_of_clear at_ fun d below occurs => quiet d below .start trivial occurs
  rw [seekRound, found]
  cases switch : inlineHeader p.buffer with
  | none => rfl
  | some first =>
    obtain ⟨pos, name⟩ := first
    refine if_neg fun before => ?_
    exact quiet pos before (.inline name) trivial (inlineHeader_spec switch).1

theorem seekRound_switch (at_ : EndAt p.buffer pos (.inline name)) (quiet : Quiet .seek p.buffer pos) :
    p.seekRound final = p.switchRound (emitSeek (p.buffer.take pos)) pos name := by
  have found : inlineHeader p.buffer = some (pos, name) :=
    inlineHeader_eq at_ fun d below name' => quiet d below (.inline name') trivial
  rw [seekRound, found]
  cases start : findSub atemStart p.buffer with
  | none => rfl
  | some s =>
    refine if_pos ?_
    have here : EndAt p.buffer s .start := findSub_occurs start
    rcases Nat.lt_trichotomy s pos with h | rfl | h
    · exact absurd here (quiet s h .start trivial)
    · exact absurd (here.unique at_) (by simp)
    · exact h

theorem seekRound_wait (quiet : ∀ n, Quiet .seek p.buffer n) :
    p.seekRound final = p.waitRound final emitSeek := by
  have noStart : findSub atemStart p.buffer = none := by
    cases found : findSub atemStart p.buffer with
    | none => rfl
    | some s =>
      exact absurd (findSub_occurs found) (quiet (s + 1) s (Nat.lt_succ_self s) .start trivial)
  have noSwitch : inlineHeader p.buffer = none :=
    inlineHeader_eq_none_iff.mpr fun d name =>
      quiet (d + 1) d (Nat.lt_succ_self d) (.inline name) trivial
  rw [seekRound, noStart, noSwitch]

/-- A round between segments has a first full header, a first switch or nothing to go by. -/
theorem seek_cases (text : List Char) :
    (∃ s, EndAt text s .start ∧ Quiet .seek text s) ∨
      (∃ pos name, EndAt text pos (.inline name) ∧ Quiet .seek text pos) ∨
        ∀ n, Quiet .seek text n := by
  have quiet : ∀ n, (∀ d < n, ¬ EndAt text d .start) → (∀ d < n, ∀ name, ¬ EndAt text d (.inline name)) →
      Quiet .seek text n := by
    intro n noStart noSwitch d below kind seen
    cases kind with
    | closer tok => exact absurd seen id
    | start => exact noStart d below
    | inline name => exact noSwitch d below name
  cases start : findSub atemStart text with
  | none =>
    have free : ∀ d, ¬ EndAt text d .start := fun d here =>
      findSub_eq_none_iff.mp start (isInfix_iff_exists_drop.mpr ⟨d, here⟩)
    cases switch : inlineHeader text with
    | none =>
      exact .inr (.inr fun n => quiet n (fun d _ => free d)
        fun d _ name => inlineHeader_eq_none_iff.mp switch d name)
    | some first =>
      obtain ⟨pos, name⟩ := first
      obtain ⟨at_, least⟩ := inlineHeader_spec switch
      exact .inr (.inl ⟨pos, name, at_, quiet pos (fun d _ => free d) least⟩)
  | some s =>
    have here : EndAt text s .start := findSub_occurs start
    have least : ∀ d < s, ¬ EndAt text d .start := findSub_least start
    cases switch : inlineHeader text with
    | none =>
      exact .inl ⟨s, here, quiet s least fun d _ name => inlineHeader_eq_none_iff.mp switch d name⟩
    | some first =>
      obtain ⟨pos, name⟩ := first
      obtain ⟨at_, least'⟩ := inlineHeader_spec switch
      by_cases before : pos < s
      · exact .inr (.inl ⟨pos, name, at_, quiet pos (fun d below => least d (by omega)) least'⟩)
      · exact .inl ⟨s, here, quiet s least fun d below => least' d (by omega)⟩

/-! ## A round that another one follows -/

/-- The parser with more text in its buffer. -/
def grown (p : MuseGlimmerReasoningParser) (ext : List Char) : MuseGlimmerReasoningParser :=
  { p with buffer := p.buffer ++ ext }

/-- The round with more text in its buffer. -/
def Round.grown (r : Round) (ext : List Char) : Round := { r with next := r.next.grown ext }

theorem switchRound_grown (given : ReasoningParseResult) (room : pos + inlineLength name ≤ p.buffer.length)
    (ext : List Char) :
    (p.grown ext).switchRound given pos name = (p.switchRound given pos name).grown ext := by
  have rest : (p.buffer ++ ext).drop (pos + inlineLength name) =
      p.buffer.drop (pos + inlineLength name) ++ ext := List.drop_append_of_le_length room
  have header : ((p.buffer ++ ext).drop pos).take (inlineLength name) =
      (p.buffer.drop pos).take (inlineLength name) := by
    rw [List.drop_append_of_le_length (by omega), List.take_append_of_le_length (by
      rw [List.length_drop]; omega)]
  simp only [switchRound, grown, Round.grown, beginBody, rest, header]

/-- A marker that opens no header is given away alike in a longer text. -/
theorem release_grown (room : s + atemStart.length ≤ p.buffer.length) (ext : List Char) :
    (p.grown ext).release s = (p.release s).grown ext := by
  have rest : (p.buffer ++ ext).drop (s + atemStart.length) =
      p.buffer.drop (s + atemStart.length) ++ ext := List.drop_append_of_le_length room
  have before : (p.buffer ++ ext).take s = p.buffer.take s :=
    List.take_append_of_le_length (by omega)
  simp only [release, grown, Round.grown, rest, before]
  rfl

/-- The part of a candidate header that must have no marker has the same ones in a longer text, when
it has one. -/
theorem markerInside_grown {candidate : List Char} (absent : ¬ atemMessage <:+: candidate)
    (inside : atemMarkerInside candidate) (ext : List Char) :
    atemMarkerInside ((candidate ++ ext).take
      ((findSub atemMessage (candidate ++ ext)).getD (candidate ++ ext).length)) := by
  obtain ⟨tok, mem, other, occurs⟩ := inside
  refine ⟨tok, mem, other, ?_⟩
  obtain ⟨d, here⟩ := isInfix_iff_exists_drop.mp occurs
  have positive := List.length_pos_iff.mpr (headed_atemAllTokens.ne_nil mem)
  have room := here.length_le
  rw [List.length_drop] at room
  cases found : findSub atemMessage (candidate ++ ext) with
  | none =>
    rw [Option.getD_none, List.take_length]
    exact occurs.trans (List.prefix_append _ _).isInfix
  | some span =>
    rw [Option.getD_some]
    have message := findSub_occurs found
    -- A marker behind a header that is not complete comes after this one.
    have behind : d + tok.length ≤ span := by
      by_contra early
      have beyond : candidate.length < span + atemMessage.length := by
        by_contra fits
        exact absent (isInfix_of_prefix_drop_append message (by omega))
      have grown : tok <+: (candidate ++ ext).drop d := by
        rw [List.drop_append_of_le_length (by omega)]
        exact here.trans (List.prefix_append _ _)
      rcases Nat.lt_trichotomy span d with h | rfl | h
      · exact headed_atemAllTokens.no_overlap atemMessage_mem mem message grown h (by omega)
      · rcases List.prefix_or_prefix_of_prefix message grown with h | h
        · exact other (headed_atemAllTokens.apart _ atemMessage_mem tok mem h).symm
        · exact other (headed_atemAllTokens.apart tok mem _ atemMessage_mem h)
      · exact headed_atemAllTokens.no_overlap mem atemMessage_mem grown message h (by omega)
    have inSpan := findSub_le found
    refine isInfix_iff_exists_drop.mpr ⟨d, ?_⟩
    rw [List.drop_take]
    refine @List.prefix_of_prefix_length_le _ _ _ ((candidate ++ ext).drop d) ?_
      (List.take_prefix _ _) ?_
    · rw [List.drop_append_of_le_length (by omega)]
      exact here.trans (List.prefix_append _ _)
    · rw [List.length_take, List.length_drop]
      omega

/-- What a round does at a full header. -/
inductive StartCase (p : MuseGlimmerReasoningParser) (s : Nat) : Prop
  | release (here : ∀ ext final', (p.grown ext).startRound final' s = (p.grown ext).release s)
  | header (span : Nat) (recipient headerText : List Char)
      (room : s + atemStart.length + span + atemMessage.length ≤ p.buffer.length)
      (here : ∀ ext final', (p.grown ext).startRound final' s =
        { next := ({ p.grown ext with
            buffer := p.buffer.drop (s + atemStart.length + span + atemMessage.length) ++ ext
            syntheticOpen := false }.beginBody recipient headerText).1
          out := emitSeek (p.buffer.take s) ++
            (if isToolName recipient then emit recipient headerText else .empty)
          again := true })
      (closes : atemMessage <+: p.buffer.drop (s + atemStart.length + span))
  | wait (here : p.startRound false s =
      { next := { p with buffer := p.buffer.drop s }
        out := emitSeek (p.buffer.take s), again := false })
      (ends : ∀ final', (p.startRound final' s).again = false)

theorem start_cases (at_ : EndAt p.buffer s .start) : StartCase p s := by
  have room : s + atemStart.length ≤ p.buffer.length := by
    have long := List.IsPrefix.length_le at_
    have positive : 0 < atemStart.length := by decide
    rw [List.length_drop] at long
    omega
  have startLength : atemStart.length = 9 := by decide
  have messageLength : atemMessage.length = 11 := by decide
  have rest : ∀ ext, (p.grown ext).buffer.drop (s + atemStart.length) =
      p.buffer.drop (s + atemStart.length) ++ ext := fun ext => List.drop_append_of_le_length room
  have size : (p.buffer.drop (s + atemStart.length)).length =
      p.buffer.length - (s + atemStart.length) := List.length_drop
  generalize same : p.buffer.drop (s + atemStart.length) = candidate at rest size
  cases message : findSub atemMessage candidate with
  | some span =>
    have grownMessage := fun ext => findSub_append (by decide) message ext
    have inside := findSub_room (by decide) message
    have part : ∀ ext, (candidate ++ ext).take span = candidate.take span :=
      fun ext => List.take_append_of_le_length (by omega)
    by_cases marker : atemMarkerInside (candidate.take span)
    · refine .release fun ext final' => ?_
      rw [startRound, rest]
      simp only [grownMessage, Option.getD_some, part]
      exact if_pos marker
    · by_cases far : atemHeaderSpan < span
      · refine .release fun ext final' => ?_
        rw [startRound, rest]
        simp only [grownMessage, Option.getD_some, part, if_neg marker]
        exact if_pos far
      · have headerText : ∀ ext, (candidate ++ ext).take (span + atemMessage.length) =
            candidate.take (span + atemMessage.length) :=
          fun ext => List.take_append_of_le_length (by omega)
        have after : ∀ ext, (candidate ++ ext).drop (span + atemMessage.length) =
            p.buffer.drop (s + atemStart.length + span + atemMessage.length) ++ ext := by
          intro ext
          rw [List.drop_append_of_le_length (by omega), ← same, List.drop_drop, Nat.add_assoc,
            Nat.add_assoc, Nat.add_assoc]
        have before : ∀ ext, (p.grown ext).buffer.take s = p.buffer.take s :=
          fun ext => List.take_append_of_le_length (by omega)
        refine .header span ((recipientOf (candidate.take span)).getD userName)
          (atemStart ++ candidate.take (span + atemMessage.length)) (by omega)
          (fun ext final' => ?_) ?_
        · rw [startRound, rest]
          simp only [grownMessage, Option.getD_some, part, if_neg marker, if_neg far, headerText,
            after, before, beginBody]
        · rw [← List.drop_drop, same]
          exact findSub_occurs message
  | none =>
    have absent := findSub_eq_none_iff.mp message
    by_cases marker : atemMarkerInside candidate
    · refine .release fun ext final' => ?_
      rw [startRound, rest]
      exact if_pos (markerInside_grown absent marker ext)
    · by_cases long : atemHeaderSpan + atemMessage.length < candidate.length
      · refine .release fun ext final' => ?_
        rw [startRound, rest]
        by_cases marker' : atemMarkerInside ((candidate ++ ext).take
            ((findSub atemMessage (candidate ++ ext)).getD (candidate ++ ext).length))
        · exact if_pos marker'
        · refine (if_neg marker').trans ?_
          cases message' : findSub atemMessage (candidate ++ ext) with
          | none =>
            have longer : atemHeaderSpan + atemMessage.length < (candidate ++ ext).length := by
              rw [List.length_append]
              omega
            exact if_pos longer
          | some span =>
            -- A marker that arrives now comes too late.
            have beyond : candidate.length < span + atemMessage.length := by
              by_contra fits
              exact absent (isInfix_of_prefix_drop_append (findSub_occurs message') (by omega))
            have far : atemHeaderSpan < span := by
              simp only [atemHeaderSpan] at long ⊢
              omega
            exact if_pos far
      · refine .wait ?_ fun final' => ?_
        · rw [startRound, same, message]
          simp only [Option.getD_none, List.take_length, if_neg marker, if_neg long,
            Bool.false_eq_true, if_false]
        · rw [startRound, same, message]
          simp only [Option.getD_none, List.take_length, if_neg marker, if_neg long]
          cases final' <;> rfl

/-- No headerless switch in a text names a recipient with `to=` in it. -/
def NamesPlain (text : List Char) : Prop :=
  ∀ d ≤ text.length, ∀ name, inlineHere (text.drop d) = some name → ¬ recipientMark <:+: name

theorem NamesPlain.plain {text : List Char} {d : Nat} (plain : NamesPlain text)
    (at_ : SwitchAt name (text.drop d)) : ¬ recipientMark <:+: name := by
  have room := switch_room at_
  exact plain d (by omega) name (inlineHere_eq_some_iff.mpr at_)

theorem NamesPlain.of_append {front text : List Char} (plain : NamesPlain (front ++ text)) :
    NamesPlain text := by
  intro d inside name found
  refine plain (front.length + d) (by rw [List.length_append]; omega) name ?_
  rwa [← List.drop_drop, List.drop_left]

/-- What is given of a part of the text in which nothing starts. -/
def give (p : MuseGlimmerReasoningParser) (piece : List Char) : ReasoningParseResult :=
  match p.mode with
  | .seek => emitSeek piece
  | .body => emit p.recipient piece

/-- How far a drain is from its end. -/
def measure (p : MuseGlimmerReasoningParser) : Nat :=
  2 * p.buffer.length + (if p.mode = .body then 1 else 0)

/-- What a round does, with `k` characters taken from the buffer. -/
inductive RoundCase (p : MuseGlimmerReasoningParser) (k : Nat) : Prop
  | again (same : ∀ ext final, (p.grown ext).round final = (p.round false).grown ext)
      (more : (p.round false).again = true) (rest : (p.round false).next.buffer = p.buffer.drop k)
      (less : (p.round false).next.measure < p.measure)
  | stop (here : p.round false =
        { next := { p with buffer := p.buffer.drop k }, out := p.give (p.buffer.take k)
          again := false })
      (ends : ∀ final, (p.round final).again = false)
      (quiet : ∀ ext, NamesPlain (p.buffer ++ ext) → Quiet p.mode (p.buffer ++ ext) k)

variable {text : List Char}

/-- Nothing starts in what is given away of a buffer with nothing to go by. -/
theorem quiet_hold {mode : AtemMode} (quiet : ∀ n, Quiet mode text n)
    (plain : NamesPlain (text ++ ext)) :
    Quiet mode (text ++ ext) (text.length - atemHoldLen text) := by
  intro d below kind seen at_
  have absent : ¬ EndAt text d kind := quiet (d + 1) d (Nat.lt_succ_self d) kind seen
  have part : ∀ {tok : List Char}, tok ∈ atemAllTokens → tok <+: (text ++ ext).drop d →
      tok <+: text.drop d := by
    intro tok mem here
    by_cases beyond : text.length < d + tok.length
    · exact absurd (marker_held mem here beyond) (by omega)
    · rw [List.drop_append_of_le_length (by omega)] at here
      exact List.prefix_of_prefix_length_le here (List.prefix_append _ _)
        (by rw [List.length_drop]; omega)
  cases kind with
  | closer tok => exact absent ⟨at_.1, part (atemClosing_mem tok at_.1) at_.2⟩
  | start => exact absent (part atemStart_mem at_)
  | inline name =>
    by_cases beyond : text.length < d + inlineLength name
    · exact absurd (switch_held at_ (plain.plain at_) beyond) (by omega)
    · refine absent ?_
      rw [EndAt, List.drop_append_of_le_length (by omega)] at at_
      exact SwitchAt.of_append at_ (by rw [List.length_drop]; omega)

theorem cutsNone_at (at_ : EndAt text pos kind) (ext : List Char) :
    CutsNone atemAllTokens (text.take pos) (text.drop pos ++ ext) := by
  have inside := at_.lt
  have size : (text.take pos).length = pos := by
    rw [List.length_take]
    omega
  have marker : ∀ {tok : List Char}, tok ∈ atemAllTokens → tok <+: text.drop pos →
      CutsNone atemAllTokens (text.take pos) (text.drop pos ++ ext) :=
    fun mem here => headed_atemAllTokens.cutsNone_before mem (here.trans (List.prefix_append _ _))
  cases kind with
  | closer tok => exact marker (atemClosing_mem tok at_.1) at_.2
  | start => exact marker atemStart_mem at_
  | inline name =>
    -- No end of a marker starts with `to=`.
    intro tok mem d below occurs
    by_contra beyond
    rw [size] at below beyond
    rw [← List.append_assoc, List.take_append_drop] at occurs
    have solid : ∀ tok ∈ atemAllTokens, ∀ k < tok.length, 0 < k →
        ¬ recipientMark <+: tok.drop k ∧ ¬ tok.drop k <+: recipientMark := by decide
    obtain ⟨no, no'⟩ := solid tok mem (pos - d) (by omega) (by omega)
    have starts : recipientMark <+: (text ++ ext).drop pos := by
      rw [List.drop_append_of_le_length (by omega)]
      exact ((List.prefix_append _ _).trans at_.2.2.2).trans (List.prefix_append _ _)
    obtain ⟨rest, hrest⟩ := occurs
    have part : tok.drop (pos - d) <+: (text ++ ext).drop pos := by
      refine ⟨rest, ?_⟩
      rw [← List.drop_append_of_le_length (by omega), hrest, List.drop_drop]
      congr 1
      omega
    rcases List.prefix_or_prefix_of_prefix part starts with h | h
    · exact no' h
    · exact no h

theorem cutsNone_after {m : Nat} (mem : tok ∈ atemAllTokens)
    (here : tok <+: text.drop m) (ext : List Char) :
    CutsNone atemAllTokens (text.take (m + tok.length)) (text.drop (m + tok.length) ++ ext) := by
  have split : text.take (m + tok.length) = text.take m ++ tok := by
    rw [List.take_add]
    congr 1
    exact (List.prefix_iff_eq_take.mp here).symm
  rw [split]
  exact headed_atemAllTokens.cutsNone_behind mem

theorem round_cases (p : MuseGlimmerReasoningParser) :
    ∃ k ≤ p.buffer.length, RoundCase p k ∧
      ∀ ext, CutsNone atemAllTokens (p.buffer.take k) (p.buffer.drop k ++ ext) := by
  have messageLength : atemMessage.length = 11 := by decide
  have startLength : atemStart.length = 9 := by decide
  have holdCut : ∀ (mode : AtemMode), p.mode = mode → (∀ n, Quiet mode p.buffer n) →
      (∀ final, p.round final = p.waitRound final p.give) →
      ∃ k ≤ p.buffer.length, RoundCase p k ∧
        ∀ ext, CutsNone atemAllTokens (p.buffer.take k) (p.buffer.drop k ++ ext) := by
    intro mode isMode quiet waits
    refine ⟨p.buffer.length - atemHoldLen p.buffer, Nat.sub_le _ _, .stop ?_ ?_ ?_, ?_⟩
    · rw [waits, waitRound, holdLen]
      rfl
    · intro final
      rw [waits]
      rfl
    · intro ext plain
      rw [isMode]
      exact quiet_hold quiet plain
    · exact fun ext => cutsNone_hold p.buffer ext
  have switchCut : ∀ (given : ReasoningParseResult) (pos : Nat) (name : List Char),
      EndAt p.buffer pos (.inline name) →
      (∀ ext final, (p.grown ext).round final = (p.grown ext).switchRound given pos name) →
      ∃ k ≤ p.buffer.length, RoundCase p k ∧
        ∀ ext, CutsNone atemAllTokens (p.buffer.take k) (p.buffer.drop k ++ ext) := by
    intro given pos name at_ here
    have room := switch_room at_
    have this : p.round false = p.switchRound given pos name := by
      have self := here [] false
      rwa [show p.grown [] = p by simp [grown]] at self
    refine ⟨pos + inlineLength name, room, .again ?_ ?_ ?_ ?_, fun ext => ?_⟩
    · intro ext final
      rw [here, this]
      exact switchRound_grown given room ext
    · rw [this]
      rfl
    · rw [this]
      rfl
    · rw [this]
      change 2 * (p.buffer.drop (pos + inlineLength name)).length + 1 < measure p
      rw [inlineLength] at room ⊢
      rw [List.length_drop, measure]
      omega
    · have cut := cutsNone_after atemMessage_mem (SwitchAt.message at_) ext
      rwa [show pos + recipientMark.length + name.length + atemMessage.length =
        pos + inlineLength name by rw [inlineLength]; omega] at cut
  cases isMode : p.mode with
  | seek =>
    have rounds : ∀ ext final, (p.grown ext).round final = (p.grown ext).seekRound final := by
      intro ext final
      rw [round, grown]
      simp only [isMode]
    rcases seek_cases p.buffer with ⟨s, at_, quiet⟩ | ⟨pos, name, at_, quiet⟩ | quiet
    · obtain ⟨tok, mem, m, behind, here, room⟩ := at_.marker
      have starts : ∀ ext final, (p.grown ext).round final = (p.grown ext).startRound final s := by
        intro ext final
        rw [rounds]
        exact seekRound_start (at_.append ext) (quiet.append mem here room behind ext)
      have self : ∀ final, p.round final = p.startRound final s := by
        intro final
        have this := starts [] final
        rwa [show p.grown [] = p by simp [grown]] at this
      have inBuffer : s + atemStart.length ≤ p.buffer.length := by
        have long := List.IsPrefix.length_le at_
        rw [List.length_drop] at long
        omega
      cases start_cases at_ with
      | release released =>
        have this : p.round false = p.release s := by
          have now := released [] false
          rw [show p.grown [] = p by simp [grown]] at now
          rw [self, now]
        refine ⟨s + atemStart.length, inBuffer, .again ?_ ?_ ?_ ?_, fun ext =>
          cutsNone_after atemStart_mem at_ ext⟩
        · intro ext final
          rw [starts, released, this]
          exact release_grown inBuffer ext
        · rw [this]
          rfl
        · rw [this]
          rfl
        · rw [this]
          change 2 * (p.buffer.drop (s + atemStart.length)).length +
            (if p.mode = .body then 1 else 0) < measure p
          rw [List.length_drop, measure]
          omega
      | header span recipient headerText room' header closes =>
        have this := self false
        have now := header [] false
        rw [show p.grown [] = p by simp [grown], List.append_nil] at now
        rw [now] at this
        refine ⟨s + atemStart.length + span + atemMessage.length, room', .again ?_ ?_ ?_ ?_,
          fun ext => cutsNone_after atemMessage_mem closes ext⟩
        · intro ext final
          rw [starts, header, this]
          rfl
        · rw [this]
        · rw [this]
          rfl
        · rw [this]
          change 2 * (p.buffer.drop (s + atemStart.length + span + atemMessage.length)).length + 1 <
            measure p
          rw [List.length_drop, measure]
          omega
      | wait waits ends =>
        refine ⟨s, by omega, .stop ?_ ?_ ?_, fun ext => cutsNone_at at_ ext⟩
        · rw [self, waits, give, isMode]
        · intro final
          rw [self]
          exact ends final
        · intro ext _
          rw [isMode]
          exact quiet.append mem here room behind ext
    · refine switchCut (emitSeek (p.buffer.take pos)) pos name at_ fun ext final => ?_
      obtain ⟨tok, mem, m, behind, here, room⟩ := at_.marker
      rw [rounds, seekRound_switch (at_.append ext) (quiet.append mem here room behind ext)]
      congr 2
      exact List.take_append_of_le_length at_.lt.le
    · refine holdCut .seek isMode quiet fun final => ?_
      have this := rounds [] final
      rw [show p.grown [] = p by simp [grown]] at this
      rw [this, seekRound_wait quiet]
      congr 1
      funext piece
      rw [give, isMode]
  | body =>
    have rounds : ∀ ext final, (p.grown ext).round final = (p.grown ext).bodyRound final := by
      intro ext final
      rw [round, grown]
      simp only [isMode]
    have self : ∀ final, p.round final = p.bodyRound final := by
      intro final
      have this := rounds [] final
      rwa [show p.grown [] = p by simp [grown]] at this
    cases found : segmentBodyEnd p.buffer with
    | mk stop matched =>
      cases matched with
      | none =>
        refine holdCut .body isMode (fun n d _ kind _ => segmentBodyEnd_none found d kind)
          fun final => ?_
        have gives : p.give = emit p.recipient := by
          funext piece
          rw [give, isMode]
        rw [self, bodyRound, found, gives]
      | some kind =>
        obtain ⟨at_, -⟩ := segmentBodyEnd_spec found
        have inside := at_.lt
        have grownFound := fun ext => segmentBodyEnd_append found ext
        have before : ∀ ext, (p.buffer ++ ext).take stop = p.buffer.take stop :=
          fun ext => List.take_append_of_le_length inside.le
        cases kind with
        | closer tok =>
          have mem := atemClosing_mem tok at_.1
          have positive := List.length_pos_iff.mpr (headed_atemAllTokens.ne_nil mem)
          have room : stop + tok.length ≤ p.buffer.length := by
            have long := at_.2.length_le
            rw [List.length_drop] at long
            omega
          have rest : ∀ ext, (p.buffer ++ ext).drop (stop + tok.length) =
              p.buffer.drop (stop + tok.length) ++ ext :=
            fun ext => List.drop_append_of_le_length room
          refine ⟨stop + tok.length, room, .again ?_ ?_ ?_ ?_,
            fun ext => cutsNone_after mem at_.2 ext⟩
          · intro ext final
            rw [rounds, self, bodyRound, bodyRound, grown]
            simp only [grownFound, found, before, rest]
            rfl
          · rw [self, bodyRound, found]
          · rw [self, bodyRound, found]
          · rw [self, bodyRound, found]
            change 2 * (p.buffer.drop (stop + tok.length)).length + 0 < measure p
            rw [List.length_drop, measure]
            omega
        | start =>
          have rest : ∀ ext, (p.buffer ++ ext).drop stop = p.buffer.drop stop ++ ext :=
            fun ext => List.drop_append_of_le_length inside.le
          refine ⟨stop, inside.le, .again ?_ ?_ ?_ ?_, fun ext => cutsNone_at at_ ext⟩
          · intro ext final
            rw [rounds, self, bodyRound, bodyRound, grown]
            simp only [grownFound, found, before, rest]
            rfl
          · rw [self, bodyRound, found]
          · rw [self, bodyRound, found]
          · rw [self, bodyRound, found]
            change 2 * (p.buffer.drop stop).length + 0 < measure p
            rw [List.length_drop, measure, isMode, if_pos rfl]
            omega
        | inline name =>
          refine switchCut (emit p.recipient (if isToolName p.recipient then
            p.buffer.take stop ++ "<|eom|>".toList else p.buffer.take stop)) stop name at_
            fun ext final => ?_
          rw [rounds, bodyRound, grown]
          simp only [grownFound, before]

end

end MuseGlimmerReasoningParser

end FreeSwarm.Server
