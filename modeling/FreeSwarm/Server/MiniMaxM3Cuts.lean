import FreeSwarm.Server.MiniMaxM3Stream

/-!
# Where MiniMax M3 keeps its promise

The one-shot parse of MiniMax M3 promises to match its streaming path. It does so for every way of
cutting a completion exactly when the completion is `Faithful`. For any other completion one of a
few cuts shows the difference: the whole completion in one piece, a cut inside a marker, or a cut
behind the most of a tool block that a stream holds back.
-/

namespace FreeSwarm.Server.MiniMaxM3ReasoningParser

open FreeSwarm.Foundation

/-- No whitespace before the closing marker, and no tool marker too far before it. -/
def Tight (text : List Char) : Prop :=
  HoldBounded thinkEnd (some toolStart) text ∧ CloseTight thinkEnd text

/-- The completions that every stream parses as the one-shot parse does. Behind a closing marker at
the head, or inside the reasoning, no opening marker comes; before an opening marker nothing comes,
or nothing but tool markers when one more follows it and the reasoning is never closed. -/
def Faithful (forceReasoning : Bool) (text : List Char) : Prop :=
  if forceReasoning then ¬ thinkStart <:+: text ∧ Tight text
  else if thinkEnd <+: lstrip text then ¬ thinkStart <:+: (lstrip text).drop thinkEnd.length
  else ∀ before body, splitSub thinkStart text = some (before, body) →
    (before = [] ∧ Tight body) ∨
      (∃ k, before = toolRow k) ∧ toolStart <+: body ∧ ¬ thinkEnd <:+: body

section
variable {streamReasoning : Bool} {pieces : List (List Char)} {text before body : List Char}

/-! ## The one-shot parse -/

theorem detectAndParse_reasoning :
    (create true streamReasoning).detectAndParse text =
      verbatim thinkEnd (some toolStart) text := rfl

theorem detectAndParse_closer (closer : thinkEnd <+: lstrip text) :
    (create false streamReasoning).detectAndParse text =
      ⟨[], (lstrip text).drop thinkEnd.length⟩ :=
  if_pos closer

theorem detectAndParse_content (other : ¬ thinkEnd <+: lstrip text)
    (free : ¬ thinkStart <:+: text) :
    (create false streamReasoning).detectAndParse text = ⟨[], text⟩ := by
  simp only [detectAndParse, create, BaseReasoningParser.create, if_neg other,
    splitSub_eq_none free, Bool.false_eq_true, if_false]

theorem detectAndParse_opened (other : ¬ thinkEnd <+: lstrip text)
    (split : splitSub thinkStart text = some (before, body)) :
    (create false streamReasoning).detectAndParse text =
      if thinkEnd <:+: body ∨ toolStart <:+: body then
        ⟨(verbatim thinkEnd (some toolStart) body).reasoningText,
          before ++ (verbatim thinkEnd (some toolStart) body).normalText⟩
      else ⟨body, []⟩ := by
  simp only [detectAndParse, create, BaseReasoningParser.create, if_neg other, split,
    Bool.false_eq_true, if_false]
  cases close : splitSub thinkEnd body with
  | some found =>
    obtain ⟨reasoning, rest⟩ := found
    have occurs : thinkEnd <:+: body := ⟨_, _, (splitSub_spec close).1.symm⟩
    simp only [if_pos (.inl occurs : thinkEnd <:+: body ∨ toolStart <:+: body),
      verbatim_of_split close]
  | none =>
    have absent := splitSub_eq_none_iff.mp close
    simp only [Option.bind_some]
    cases cut : cutSub toolStart body with
    | some found =>
      obtain ⟨reasoning, block⟩ := found
      have occurs : toolStart <:+: body := by
        by_contra free
        rw [cutSub_eq_none_iff.mpr free] at cut
        simp at cut
      simp only [if_pos (.inr occurs : thinkEnd <:+: body ∨ toolStart <:+: body),
        verbatim_of_cut absent (show (some toolStart).bind (cutSub · body) = _ from cut)]
    | none =>
      have free := cutSub_eq_none_iff.mp cut
      rw [if_neg (not_or.mpr ⟨absent, free⟩)]

/-! ## Faithful completions -/

theorem stream_of_faithful {forceReasoning : Bool} (faithful : Faithful forceReasoning pieces.flatten) :
    (create forceReasoning streamReasoning).stream pieces =
      (create forceReasoning streamReasoning).detectAndParse pieces.flatten := by
  cases forceReasoning with
  | true =>
    obtain ⟨free, bounded, tight⟩ : ¬ thinkStart <:+: pieces.flatten ∧ Tight pieces.flatten :=
      faithful
    rw [detectAndParse_reasoning, stream_of_decided rfl]
    exact base_stream_reasoning free bounded tight
  | false =>
    rw [Faithful, if_neg Bool.false_ne_true] at faithful
    by_cases closer : thinkEnd <+: lstrip pieces.flatten
    · rw [if_pos closer] at faithful
      obtain ⟨pieces', rest, same⟩ :=
        @stream_of_closer (create false streamReasoning) pieces rfl
          (show ¬ thinkEnd <+: lstrip [] by decide) closer
      rw [detectAndParse_closer closer, same, stream_of_decided rfl]
      have content := @BaseReasoningParser.stream_content
        (create false streamReasoning).closed.base pieces' rfl (.inr (by rw [rest]; exact faithful))
      rw [content, rest]
      rfl
    · rw [if_neg closer] at faithful
      obtain ⟨pieces', rest, same⟩ :=
        @stream_of_other (create false streamReasoning) pieces rfl closer
      rw [show (create false streamReasoning).headBuffer ++ pieces.flatten = pieces.flatten from rfl]
        at rest
      rw [same]
      cases split : splitSub thinkStart pieces.flatten with
      | none =>
        have free := splitSub_eq_none_iff.mp split
        rw [detectAndParse_content closer free]
        have content := @BaseReasoningParser.stream_content
          (create false streamReasoning).base pieces' rfl (.inr (by rw [rest]; exact free))
        rw [content, rest]
        rfl
      | some found =>
        obtain ⟨before, body⟩ := found
        rw [detectAndParse_opened closer split]
        have whole := rest.trans (splitSub_spec split).1
        rcases faithful before body split with ⟨rfl, bounded, tight⟩ | ⟨⟨k, rfl⟩, held, absent⟩
        · rw [List.nil_append] at whole
          have opened := @base_stream_opened streamReasoning pieces' body whole bounded tight
          refine opened.trans ?_
          split_ifs with ends
          · simp
          · rw [not_or] at ends
            exact verbatim_of_open ends.1 (cutSub_eq_none_iff.mpr ends.2)
        · rw [if_pos (.inr held.isInfix)]
          have cut : (some toolStart).bind (cutSub · body) = some ([], body) :=
            @cutSub_of_clear _ _ toolStart [] body held fun d below => absurd below (by simp)
          rw [verbatim_of_cut absent cut]
          exact @base_stream_toolRow (create false streamReasoning).base pieces' body k rfl rfl rfl
            rfl rfl (show ¬ thinkStart <:+: [] by decide) whole held absent

end

/-! ## Telling cuts -/

section
variable {p : BaseReasoningParser} {forceReasoning streamReasoning : Bool}
  {text before body front held rest left right : List Char}

/-- A first piece without an opening marker outside the reasoning, and a second one that completes
the marker. -/
theorem base_stream_two (held_back : splitPartial [thinkEnd, thinkStart, toolStart] (front ++ held) =
      (front, held)) (free : ¬ thinkStart <:+: front ++ held)
    (split : splitSub thinkStart (held ++ rest) = some (left, right)) :
    (baseParser false streamReasoning).stream [front ++ held, rest] =
      ⟨[], front⟩ ++ divided thinkEnd (some toolStart) (left ++ right) := by
  have first : (baseParser false streamReasoning).parseStreamingIncrement (front ++ held) =
      ({ baseParser false streamReasoning with buffer := held }, ⟨[], front⟩) := by
    simp [BaseReasoningParser.parseStreamingIncrement, baseParser, BaseReasoningParser.create,
      BaseReasoningParser.route, BaseReasoningParser.splitTrailingPartial, free, held_back]
  have complete : thinkStart <:+: held ++ rest := ⟨_, _, (splitSub_spec split).1.symm⟩
  have second : BaseReasoningParser.parseStreamingIncrement
      { baseParser false streamReasoning with buffer := held } rest =
      BaseReasoningParser.route { baseParser false streamReasoning with
        buffer := held, strippedThinkStart := true, inReasoning := true } (left ++ right) := by
    have removed : removeFirst thinkStart (held ++ rest) = left ++ right := by
      simp only [removeFirst, split]
    rw [BaseReasoningParser.parseStreamingIncrement]
    exact (if_pos ⟨rfl, complete⟩).trans (congrArg _ removed)
  rw [BaseReasoningParser.stream, first, BaseReasoningParser.stream, second,
    BaseReasoningParser.stream]
  exact congrArg _ (BaseReasoningParser.route_flush marks_miniMaxM3 rfl)

theorem base_stream_whole (split : splitSub thinkStart text = some (before, body)) :
    (baseParser forceReasoning streamReasoning).stream [text] =
      divided thinkEnd (some toolStart) (before ++ body) := by
  have complete : thinkStart <:+: text := ⟨_, _, (splitSub_spec split).1.symm⟩
  have removed : removeFirst thinkStart text = before ++ body := by
    simp only [removeFirst, split]
  have step : (baseParser forceReasoning streamReasoning).parseStreamingIncrement text =
      BaseReasoningParser.route { baseParser forceReasoning streamReasoning with
        strippedThinkStart := true, inReasoning := true } (before ++ body) := by
    rw [BaseReasoningParser.parseStreamingIncrement]
    exact (if_pos ⟨rfl, complete⟩).trans (congrArg _ removed)
  rw [BaseReasoningParser.stream, step, BaseReasoningParser.stream]
  exact BaseReasoningParser.route_flush marks_miniMaxM3 rfl

theorem base_stream_whole_reasoning (free : ¬ thinkStart <:+: text) :
    (baseParser true streamReasoning).stream [text] = divided thinkEnd (some toolStart) text := by
  rw [BaseReasoningParser.stream, BaseReasoningParser.parseStreamingIncrement_of_settled (.inr free),
    BaseReasoningParser.stream]
  exact BaseReasoningParser.route_flush marks_miniMaxM3 rfl

/-- When every cut of a text inside the reasoning gives the parse by position, no closing marker
comes too far behind a tool marker. -/
theorem holdBounded_of_cuts (marked : p.Marked) (inside : p.inReasoning = true)
    (tool : p.toolStartToken = some toolStart) (settled : p.Settled text)
    (agree : ∀ n, (p.route (text.take n)).2 ++ (p.route (text.take n)).1.stream [text.drop n] =
      verbatim p.thinkEndToken p.toolStartToken text) :
    HoldBounded p.thinkEndToken p.toolStartToken text := by
  intro reasoning rest split before block cut earlier
  by_contra late
  rw [tool, Option.bind_some] at cut
  obtain ⟨whole, ⟨tail, hblock⟩, clear⟩ := cutSub_spec cut
  obtain ⟨whole', clear'⟩ := splitSub_spec split
  have long : 513 ≤ block.length := by
    have count := congrArg List.length (whole.symm.trans whole')
    simp only [List.length_append, BaseReasoningParser.toolHoldMax] at count late
    omega
  have toolLength : toolStart.length = 24 := by decide
  obtain ⟨kept, given, rfl, size⟩ : ∃ kept given, block = kept ++ given ∧ kept.length = 513 :=
    ⟨block.take 513, block.drop 513, (List.take_append_drop _ _).symm, by
      rw [List.length_take]; omega⟩
  have starts : toolStart <+: kept :=
    List.prefix_of_prefix_length_le ⟨tail, hblock⟩ (List.prefix_append _ _) (by omega)
  have piece : text.take (before.length + 513) = before ++ kept := by
    rw [whole, ← List.append_assoc, ← size, ← List.length_append, List.take_left]
  have after : text.drop (before.length + 513) = given := by
    rw [whole, ← List.append_assoc, ← size, ← List.length_append, List.drop_left]
  have absent : ¬ p.thinkEndToken <:+: before ++ kept := by
    intro occurs
    obtain ⟨d, hd⟩ := isInfix_iff_exists_drop.mp occurs
    have nonempty := List.length_pos_iff.mpr marked.close_ne
    have room := hd.length_le
    simp only [List.length_drop, List.length_append] at room
    simp only [BaseReasoningParser.toolHoldMax] at late
    refine clear' d (by omega) ?_
    rw [whole, ← List.append_assoc, List.drop_append_of_le_length (by
      rw [List.length_append]; omega)]
    exact hd.trans (List.prefix_append _ _)
  have cutKept : p.toolStartToken.bind (cutSub · (before ++ kept)) = some (before, kept) := by
    rw [tool]
    refine cutSub_of_clear starts ?_
    rw [whole, ← List.append_assoc] at clear
    exact clear.of_append
  have step : p.route (before ++ kept) =
      ({ p with buffer := [], inReasoning := false }, ⟨before, kept⟩) := by
    have beyond : BaseReasoningParser.toolHoldMax < kept.length := by
      rw [size]
      decide
    simp only [BaseReasoningParser.route, if_pos inside, splitSub_eq_none absent, cutKept,
      if_pos beyond]
  have content := @BaseReasoningParser.stream_content
    { p with buffer := [], inReasoning := false } [given] rfl
    (BaseReasoningParser.Settled.part (p := p) settled (by
      rw [whole, ← List.append_assoc]
      simpa using (List.suffix_append (before ++ kept) given).isInfix))
  have same := agree (before.length + 513)
  rw [piece, after, step, content, verbatim_of_split split] at same
  have lengths := congrArg (fun r => r.reasoningText.length) same
  simp only [ReasoningParseResult.reasoningText_append, List.append_nil] at lengths
  omega

theorem closeTight_of_whole
    (same : divided thinkEnd (some toolStart) text = verbatim thinkEnd (some toolStart) text) :
    CloseTight thinkEnd text := by
  intro reasoning rest split
  rw [divided_of_split split, verbatim_of_split split] at same
  exact congrArg ReasoningParseResult.reasoningText same

theorem length_divided_lt (split : splitSub thinkStart text = some (before, body)) :
    divided thinkEnd (some toolStart) (before ++ body) ≠ verbatim thinkEnd (some toolStart) text := by
  intro same
  have shorter := @length_divided_le thinkEnd (before ++ body) (some toolStart)
  rw [same] at shorter
  have inner := @length_verbatim thinkEnd (before ++ body) (some toolStart)
  have outer := @length_verbatim thinkEnd text (some toolStart)
  have whole := congrArg List.length (splitSub_spec split).1
  have startLength : thinkStart.length = 10 := by decide
  have endLength : thinkEnd.length = 11 := by decide
  simp only [List.length_append] at whole inner
  by_cases occurs : thinkEnd <:+: text
  · simp only [occurs, if_true] at outer
    by_cases kept : thinkEnd <:+: before ++ body
    · simp only [kept, if_true] at inner
      omega
    · -- The piece gives all of the shorter text, one character more than the one-shot parse.
      rw [divided_of_absent kept] at same
      simp only [kept, if_false] at inner
      rw [same] at inner
      omega
  · simp only [occurs, if_false] at outer
    omega

end

/-! ## Completions that open their reasoning themselves -/

/-- Every stream of a completion without reasoning at its head gives the one-shot parse. -/
structure AllAgree (streamReasoning : Bool) (text before body : List Char) : Prop where
  other : ¬ thinkEnd <+: lstrip text
  split : splitSub thinkStart text = some (before, body)
  agree : ∀ pieces, pieces.flatten = text → (create false streamReasoning).stream pieces =
    (create false streamReasoning).detectAndParse text

theorem decided_of_occurs {mark text : List Char} (nonempty : mark ≠ []) (solid : lstrip mark = mark)
    (outside : ¬ mark <:+: thinkEnd) (occurs : mark <:+: text) :
    ¬ (lstrip text = [] ∨ lstrip text <+: thinkEnd) := by
  obtain ⟨blank, hblank, whole⟩ := exists_lstrip text
  have kept : mark <:+: lstrip text := by
    rw [whole, infix_append_iff_of_clear (clearBelow_blank nonempty solid hblank _)] at occurs
    exact occurs
  rintro (empty | starts)
  · rw [empty] at kept
    exact nonempty (List.infix_nil.mp kept)
  · exact outside (kept.trans starts.isInfix)

namespace AllAgree

section
variable {streamReasoning : Bool} {text before body front rest : List Char}

theorem whole (h : AllAgree streamReasoning text before body) :
    text = before ++ (thinkStart ++ body) := by
  rw [(splitSub_spec h.split).1, List.append_assoc]

theorem detect_ended (h : AllAgree streamReasoning text before body)
    (ends : thinkEnd <:+: body ∨ toolStart <:+: body) :
    (create false streamReasoning).detectAndParse text =
      ⟨(verbatim thinkEnd (some toolStart) body).reasoningText,
        before ++ (verbatim thinkEnd (some toolStart) body).normalText⟩ := by
  rw [detectAndParse_opened h.other h.split, if_pos ends]

theorem two (h : AllAgree streamReasoning text before body) (pieces : front ++ rest = text)
    (decided : ¬ (lstrip front = [] ∨ lstrip front <+: thinkEnd)) :
    (baseParser false streamReasoning).stream [front, rest] =
      (create false streamReasoning).detectAndParse text := by
  have other : ¬ thinkEnd <+: lstrip front := by
    intro starts
    obtain ⟨c, tail, stays⟩ := List.exists_cons_of_ne_nil (not_or.mp decided).1
    refine h.other ?_
    rw [← pieces, lstrip_append_of_cons stays]
    exact starts.trans (List.prefix_append _ _)
  rw [← h.agree [front, rest] (by simpa using pieces)]
  exact (@stream_of_diverged (create false streamReasoning) [rest] front rfl other decided).symm

theorem one (h : AllAgree streamReasoning text before body) :
    divided thinkEnd (some toolStart) (before ++ body) =
      (create false streamReasoning).detectAndParse text := by
  have occurs : thinkStart <:+: text := ⟨_, _, (splitSub_spec h.split).1.symm⟩
  rw [← h.agree [text] (by simp)]
  exact ((@stream_of_diverged (create false streamReasoning) [] text rfl h.other
    (decided_of_occurs (by decide) (by decide) (by decide) occurs)).trans
    (base_stream_whole h.split)).symm

theorem free (h : AllAgree streamReasoning text before body)
    (short : front.length < (before ++ thinkStart).length) (start : front <+: text) :
    ¬ thinkStart <:+: front := by
  intro occurs
  obtain ⟨d, hd⟩ := isInfix_iff_exists_drop.mp occurs
  obtain ⟨tail, rfl⟩ := start
  have room := hd.length_le
  have positive : 0 < thinkStart.length := by decide
  simp only [List.length_drop, List.length_append] at room short
  refine (splitSub_spec h.split).2 d (by omega) ?_
  rw [List.drop_append_of_le_length (by omega)]
  exact hd.trans (List.prefix_append _ _)

theorem thinkStart_eq : thinkStart = thinkStart.dropLast ++ ['>'] := by decide

theorem thinkEnd_eq : thinkEnd = thinkEnd.dropLast ++ ['>'] := by decide

theorem splitPartial_dropLast {tok : List Char} (mem : tok ∈ [thinkEnd, thinkStart])
    (front : List Char) :
    splitPartial [thinkEnd, thinkStart, toolStart] (front ++ tok.dropLast) =
      (front, tok.dropLast) := by
  have longest : ∀ tok ∈ [thinkEnd, thinkStart], ∀ tok' ∈ [thinkEnd, thinkStart, toolStart],
      tok.dropLast <:+: tok' → tok'.length ≤ tok.length := by decide
  rw [splitPartial, partialLen_of_dropLast (by
    rcases List.mem_cons.mp mem with rfl | mem
    · exact List.mem_cons_self
    · exact List.mem_cons_of_mem _ (List.mem_cons.mpr (.inl (List.mem_singleton.mp mem))))
    (longest tok mem)]
  have size : (front ++ tok.dropLast).length - (tok.length - 1) = front.length := by
    simp
  rw [size]
  simp

theorem cut_start (h : AllAgree streamReasoning text before body) :
    ⟨[], before⟩ ++ divided thinkEnd (some toolStart) body =
      (create false streamReasoning).detectAndParse text := by
  have pieces : before ++ thinkStart.dropLast ++ (['>'] ++ body) = text := by
    rw [h.whole, List.append_assoc, ← List.append_assoc _ ['>'], ← thinkStart_eq]
  rw [← h.two pieces (decided_of_occurs (by decide) (by decide) (by decide)
    (List.suffix_append before thinkStart.dropLast).isInfix)]
  have split : splitSub thinkStart (thinkStart.dropLast ++ (['>'] ++ body)) = some ([], body) := by
    rw [← List.append_assoc, ← thinkStart_eq]
    exact splitSub_self _ _
  refine (base_stream_two (splitPartial_dropLast (by simp) before) ?_ split).symm
  refine h.free ?_ ⟨_, pieces⟩
  have startLength : thinkStart.length = 10 := by decide
  simp only [List.length_append, List.length_dropLast]
  omega

theorem closeTight (h : AllAgree streamReasoning text before body) : CloseTight thinkEnd body := by
  intro reasoning rest split
  have occurs : thinkEnd <:+: body := ⟨_, _, (splitSub_spec split).1.symm⟩
  have same := h.cut_start
  rw [h.detect_ended (.inl occurs), divided_of_split split, verbatim_of_split split] at same
  exact congrArg ReasoningParseResult.reasoningText same

theorem nothing_before (h : AllAgree streamReasoning text before body)
    (absent : ¬ thinkEnd <:+: body) (free : ¬ toolStart <:+: body) : before = [] := by
  have same := h.cut_start
  rw [detectAndParse_opened h.other h.split, if_neg (not_or.mpr ⟨absent, free⟩),
    divided_of_absent absent,
    verbatim_of_open absent (show (some toolStart).bind (cutSub · body) = none from
      cutSub_eq_none_iff.mpr free)] at same
  have normal := congrArg ReasoningParseResult.normalText same
  simpa using normal

theorem holdBounded (h : AllAgree streamReasoning text [] body) :
    HoldBounded thinkEnd (some toolStart) body := by
  refine @holdBounded_of_cuts { baseParser false streamReasoning with
    strippedThinkStart := true, inReasoning := true } body marks_miniMaxM3 rfl rfl (.inl rfl)
    fun n => ?_
  have pieces : thinkStart ++ body.take n ++ body.drop n = text := by
    rw [List.append_assoc, List.take_append_drop, h.whole, List.nil_append]
  have shot : (create false streamReasoning).detectAndParse text =
      verbatim thinkEnd (some toolStart) body := by
    rw [detectAndParse_opened h.other h.split]
    split_ifs with ends
    · simp
    · rw [not_or] at ends
      exact (verbatim_of_open ends.1 (show (some toolStart).bind (cutSub · body) = none from
        cutSub_eq_none_iff.mpr ends.2)).symm
  have occurs : thinkStart <:+: thinkStart ++ body.take n := (List.prefix_append _ _).isInfix
  have step : (baseParser false streamReasoning).parseStreamingIncrement
      (thinkStart ++ body.take n) = BaseReasoningParser.route { baseParser false streamReasoning with
        strippedThinkStart := true, inReasoning := true } (body.take n) := by
    have removed : removeFirst thinkStart (thinkStart ++ body.take n) = body.take n := by
      simp only [removeFirst, splitSub_self, List.nil_append]
    rw [BaseReasoningParser.parseStreamingIncrement]
    exact (if_pos ⟨rfl, occurs⟩).trans (congrArg _ removed)
  have same := h.two pieces (decided_of_occurs (by decide) (by decide) (by decide) occurs)
  rw [BaseReasoningParser.stream, step, shot] at same
  exact same

theorem not_closed (h : AllAgree streamReasoning text before body) (some_ : before ≠ []) :
    ¬ thinkEnd <:+: body := by
  intro occurs
  cases split : splitSub thinkEnd body with
  | none => exact splitSub_eq_none_iff.mp split occurs
  | some found =>
    obtain ⟨reasoning, rest⟩ := found
    have tight := h.closeTight _ _ split
    obtain ⟨rfl, -⟩ := splitSub_spec split
    have shot := h.detect_ended (.inl occurs)
    rw [verbatim_of_split split] at shot
    -- In one piece the whole text is reasoning up to the first closing marker.
    have inside : thinkEnd <:+: before ++ (reasoning ++ thinkEnd ++ rest) :=
      occurs.trans (List.suffix_append _ _).isInfix
    cases split' : splitSub thinkEnd (before ++ (reasoning ++ thinkEnd ++ rest)) with
    | none => exact splitSub_eq_none_iff.mp split' inside
    | some found' =>
      obtain ⟨reasoning', rest'⟩ := found'
      have same := h.one
      rw [shot, divided_of_split split'] at same
      obtain ⟨trimmed, rfl⟩ : rstrip reasoning' = reasoning ∧ rest' = before ++ rest :=
        ⟨congrArg ReasoningParseResult.reasoningText same,
          congrArg ReasoningParseResult.normalText same⟩
      obtain ⟨whole, clear⟩ := splitSub_spec split'
      obtain rfl : reasoning' = reasoning := by
        obtain ⟨blank, -, front⟩ := exists_rstrip reasoning'
        rw [trimmed] at front
        have count := congrArg List.length whole
        rw [front] at count
        simp only [List.length_append] at count
        rw [front, List.length_eq_zero_iff.mp (show blank.length = 0 by omega), List.append_nil]
      have swap : before ++ (reasoning' ++ thinkEnd) = reasoning' ++ thinkEnd ++ before := by
        have both : before ++ (reasoning' ++ thinkEnd) ++ rest =
            reasoning' ++ thinkEnd ++ before ++ rest := by
          rw [List.append_assoc, whole, List.append_assoc _ before]
        exact List.append_cancel_right both
      have endLength : thinkEnd.length = 11 := by decide
      -- Both ends of the swapped texts show that the text before ends in a closing marker.
      have ends : thinkEnd <:+ reasoning' ++ (thinkEnd ++ before) := by
        rw [← List.append_assoc, ← swap, ← List.append_assoc]
        exact List.suffix_append _ _
      obtain ⟨front, rfl⟩ : thinkEnd <:+ before := by
        by_cases long : thinkEnd.length ≤ before.length
        · rw [← List.append_assoc] at ends
          exact List.suffix_of_suffix_length_le ends (List.suffix_append _ _) long
        · have unbordered : ∀ d < thinkEnd.length, 0 < d → ¬ thinkEnd.drop d <+: thinkEnd := by
            decide
          have positive := List.length_pos_iff.mpr some_
          have tail : thinkEnd <:+ thinkEnd ++ before :=
            List.suffix_of_suffix_length_le ends (List.suffix_append _ _) (by simp)
          have same := List.suffix_iff_eq_drop.mp tail
          rw [List.length_append, Nat.add_sub_cancel_left,
            List.drop_append_of_le_length (by omega)] at same
          exact absurd ⟨before, same.symm⟩ (unbordered _ (by omega) positive)
      -- The cut before the last character of that marker.
      have pieces : front ++ thinkEnd.dropLast ++
          (['>'] ++ (thinkStart ++ (reasoning' ++ thinkEnd ++ rest))) = text := by
        rw [h.whole, List.append_assoc, ← List.append_assoc _ ['>'], ← thinkEnd_eq,
          List.append_assoc front]
      have decided : ¬ (lstrip (front ++ thinkEnd.dropLast) = [] ∨
          lstrip (front ++ thinkEnd.dropLast) <+: thinkEnd) := by
        cases stays : lstrip front with
        | nil =>
          obtain ⟨blank, hblank, all⟩ := exists_lstrip front
          rw [stays, List.append_nil] at all
          refine absurd ?_ h.other
          rw [h.whole, all, List.append_assoc, lstrip_append_of_blank hblank,
            lstrip_append_of_cons (show lstrip thinkEnd = '<' :: _ from rfl)]
          exact List.prefix_append _ _
        | cons c tail =>
          rw [lstrip_append_of_cons stays, stays]
          rintro (empty | starts)
          · simp at empty
          · have whole := starts.eq_of_length_le (by simp [endLength])
            have ends : thinkEnd.dropLast <:+ thinkEnd := by
              conv_rhs => rw [← whole]
              exact List.suffix_append _ _
            revert ends
            decide
      have split'' : splitSub thinkStart (thinkEnd.dropLast ++
          (['>'] ++ (thinkStart ++ (reasoning' ++ thinkEnd ++ rest)))) =
          some (thinkEnd, reasoning' ++ thinkEnd ++ rest) := by
        rw [← List.append_assoc, ← thinkEnd_eq, ← List.append_assoc]
        refine splitSub_of_clear ?_
        have clear := (splitSub_spec h.split).2
        rw [h.whole, List.append_assoc, List.length_append, ← List.append_assoc thinkEnd] at clear
        exact clear.drop
      have two := h.two pieces decided
      rw [base_stream_two (splitPartial_dropLast (by simp) front) (h.free (by
          simp only [List.length_append, List.length_dropLast]
          omega) ⟨_, pieces⟩) split'', shot,
        divided_of_split (splitSub_self _ _)] at two
      obtain rfl : [] = reasoning' := congrArg ReasoningParseResult.reasoningText two
      refine h.other ?_
      rw [List.nil_append] at swap
      have head : thinkEnd <+: front ++ thinkEnd :=
        List.prefix_of_prefix_length_le (swap ▸ List.prefix_append thinkEnd _)
          (List.prefix_append _ _) (by simp)
      obtain ⟨tail, htail⟩ := head
      rw [h.whole, ← htail, List.append_assoc,
        lstrip_append_of_cons (show lstrip thinkEnd = '<' :: _ from rfl)]
      exact List.prefix_append _ _

theorem toolStart_begins {front block : List Char} (some_ : front ≠ [])
    (starts : toolStart <+: block) (early : toolStart <+: front ++ block) :
    toolStart <+: front := by
  by_cases long : toolStart.length ≤ front.length
  · exact List.prefix_of_prefix_length_le early (List.prefix_append _ _) long
  · have positive := List.length_pos_iff.mpr some_
    obtain ⟨tail, htail⟩ := early
    have rest : toolStart.drop front.length ++ tail = block := by
      rw [← List.drop_append_of_le_length (by omega), htail, List.drop_left]
    have border : toolStart.drop front.length <+: toolStart :=
      List.prefix_of_prefix_length_le ⟨tail, rest⟩ starts (by simp)
    exact absurd border (toolStart_unbordered _ (by omega) positive)

theorem divided_toolBlock {front : List Char} (before_ : List Char) (held : toolStart <+: body)
    (same : ⟨[], before_⟩ ++ divided thinkEnd (some toolStart) (front ++ body) =
      (⟨[], before_ ++ (front ++ body)⟩ : ReasoningParseResult)) : toolStart <+: front ++ body := by
  have lengths := congrArg (fun r => r.normalText.length) same
  simp only [ReasoningParseResult.normalText_append, List.length_append] at lengths
  have bound := @length_divided_le thinkEnd (front ++ body) (some toolStart)
  have total := @length_verbatim thinkEnd (front ++ body) (some toolStart)
  have endLength : thinkEnd.length = 11 := by decide
  simp only [List.length_append] at total
  have closed : ¬ thinkEnd <:+: front ++ body := by
    intro occurs
    simp only [occurs, if_true] at total
    omega
  have occurs : toolStart <:+: front ++ body :=
    held.isInfix.trans (List.suffix_append _ _).isInfix
  rw [divided_of_absent closed] at same
  cases cut : cutSub toolStart (front ++ body) with
  | none => exact absurd occurs (cutSub_eq_none_iff.mp cut)
  | some found =>
    obtain ⟨reasoning, block⟩ := found
    rw [verbatim_of_cut closed
      (show (some toolStart).bind (cutSub · (front ++ body)) = _ from cut)] at same
    obtain rfl : reasoning = [] := congrArg ReasoningParseResult.reasoningText same
    obtain ⟨whole, starts, -⟩ := cutSub_spec cut
    rwa [whole, List.nil_append]

theorem held (h : AllAgree streamReasoning text before body) (some_ : before ≠ [])
    (absent : ¬ thinkEnd <:+: body) (occurs : toolStart <:+: body) : toolStart <+: body := by
  have shot := h.detect_ended (.inr occurs)
  have same := h.one.trans shot
  cases cut : cutSub toolStart body with
  | none => exact absurd occurs (cutSub_eq_none_iff.mp cut)
  | some found =>
    obtain ⟨reasoning, block⟩ := found
    rw [verbatim_of_cut absent (show (some toolStart).bind (cutSub · body) = _ from cut)] at same
    obtain ⟨rfl, starts, -⟩ := cutSub_spec cut
    have lengths := congrArg (fun r => r.reasoningText.length + r.normalText.length) same
    have bound := @length_divided_le thinkEnd (before ++ (reasoning ++ block)) (some toolStart)
    have total := @length_verbatim thinkEnd (before ++ (reasoning ++ block)) (some toolStart)
    have endLength : thinkEnd.length = 11 := by decide
    simp only [List.length_append] at total lengths
    have closed : ¬ thinkEnd <:+: before ++ (reasoning ++ block) := by
      intro inside
      simp only [inside, if_true] at total
      omega
    rw [divided_of_absent closed] at same
    have later : toolStart <:+: before ++ (reasoning ++ block) :=
      occurs.trans (List.suffix_append _ _).isInfix
    cases cut' : cutSub toolStart (before ++ (reasoning ++ block)) with
    | none => exact absurd later (cutSub_eq_none_iff.mp cut')
    | some found' =>
      obtain ⟨reasoning', block'⟩ := found'
      rw [verbatim_of_cut closed
        (show (some toolStart).bind (cutSub · (before ++ (reasoning ++ block))) = _ from cut')]
        at same
      obtain rfl : reasoning' = reasoning := congrArg ReasoningParseResult.reasoningText same
      obtain rfl : block' = before ++ block := congrArg ReasoningParseResult.normalText same
      obtain ⟨whole, early, clear⟩ := cutSub_spec cut'
      by_cases empty : reasoning' = []
      · rw [empty, List.nil_append]
        exact starts
      · -- The marker would start the whole text, before the place it was found at.
        refine absurd ?_ (clear 0 (List.length_pos_iff.mpr empty))
        exact (toolStart_begins some_ starts early).trans (List.prefix_append _ _)

theorem toolRow_before (h : AllAgree streamReasoning text before body)
    (absent : ¬ thinkEnd <:+: body) (held : toolStart <+: body) : ∃ k, before = toolRow k := by
  have shot := h.detect_ended (.inr held.isInfix)
  rw [verbatim_of_cut absent (show (some toolStart).bind (cutSub · body) = some ([], body) from
    @cutSub_of_clear _ _ toolStart [] body held fun d below => absurd below (by simp))] at shot
  -- By induction on what is left of the text behind a row of tool markers.
  have general : ∀ n j rest, rest.length = n → before = toolRow j ++ rest →
      ∃ k, before = toolRow k := by
    intro n
    induction n using Nat.strong_induction_on with
    | _ n ih =>
      rintro j rest size rfl
      by_cases empty : rest = []
      · exact ⟨j, by rw [empty, List.append_nil]⟩
      have early : toolStart <+: rest ++ body := by
        cases j with
        | zero =>
          refine divided_toolBlock [] held ?_
          exact h.one.trans shot
        | succ j =>
          have pieces : toolRow (j + 1) ++ (rest ++ (thinkStart ++ body)) = text := by
            rw [h.whole, List.append_assoc]
          have row : toolStart <:+: toolRow (j + 1) := by
            rw [toolRow_succ]
            exact (List.prefix_append _ _).isInfix
          have two := h.two pieces (decided_of_occurs (by decide) (by decide) (by decide) row)
          have kept : splitPartial [thinkEnd, thinkStart, toolStart] (toolRow (j + 1) ++ []) =
              (toolRow (j + 1), []) := by
            rw [splitPartial, @partialLen_toolRow _ _ toolStart (by simp) List.nil_prefix
              (by decide)]
            simp
          have split : splitSub thinkStart ([] ++ (rest ++ (thinkStart ++ body))) =
              some (rest, body) := by
            rw [List.nil_append, ← List.append_assoc]
            refine splitSub_of_clear ?_
            have clear := (splitSub_spec h.split).2
            rw [h.whole, List.append_assoc, List.length_append] at clear
            rw [List.append_assoc]
            exact clear.drop
          have free : ¬ thinkStart <:+: toolRow (j + 1) ++ [] := by
            refine h.free ?_ ⟨rest ++ (thinkStart ++ body), by rw [List.append_nil]; exact pieces⟩
            have positive := List.length_pos_iff.mpr empty
            simp only [List.length_append, List.length_nil]
            omega
          have piecewise := @base_stream_two streamReasoning _ _ _ _ _ kept free split
          rw [List.append_nil] at piecewise
          refine divided_toolBlock (toolRow (j + 1)) held ?_
          rw [← piecewise, two, shot, List.append_assoc]
      obtain ⟨rest', rfl⟩ := toolStart_begins empty held early
      have toolLength : toolStart.length = 24 := by decide
      refine ih rest'.length ?_ (j + 1) rest' rfl ?_
      · rw [← size, List.length_append]
        omega
      · rw [toolRow_succ', List.append_assoc]
  exact general before.length 0 before rfl rfl

end

end AllAgree

/-! ## The completions on which the promise is kept -/

section
variable {forceReasoning streamReasoning : Bool} {text : List Char}

theorem free_of_agree_closer (closer : thinkEnd <+: lstrip text)
    (agree : (create false streamReasoning).stream [text] =
      (create false streamReasoning).detectAndParse text) :
    ¬ thinkStart <:+: (lstrip text).drop thinkEnd.length := by
  intro occurs
  obtain ⟨rest, hrest⟩ := closer
  rw [detectAndParse_closer ⟨rest, hrest⟩] at agree
  rw [← hrest, List.drop_left] at occurs agree
  have step : (create false streamReasoning).parseStreamingIncrement text =
      (create false streamReasoning).closed.deliver rest := by
    have here : thinkEnd <+: lstrip text := ⟨rest, hrest⟩
    have after : (lstrip text).drop thinkEnd.length = rest := by rw [← hrest, List.drop_left]
    have some_ : rest ≠ [] := by
      rintro rfl
      exact absurd occurs (by decide)
    rw [← after] at some_ ⊢
    simp only [parseStreamingIncrement, create, List.nil_append, BaseReasoningParser.create,
      Bool.not_false, if_true, if_pos here, if_neg some_]
    rfl
  cases split : splitSub thinkStart rest with
  | none => exact splitSub_eq_none_iff.mp split occurs
  | some found =>
    obtain ⟨before, body⟩ := found
    have given : (create false streamReasoning).stream [text] =
        (create false streamReasoning).closed.base.stream [rest] := by
      rw [stream, step, BaseReasoningParser.stream]
      exact congrArg _ (stream_of_decided rfl)
    rw [given] at agree
    have short : divided thinkEnd (some toolStart) (before ++ body) = ⟨[], rest⟩ :=
      (@base_stream_whole false streamReasoning rest before body split).symm.trans agree
    have bound := @length_divided_le thinkEnd (before ++ body) (some toolStart)
    have total := @length_verbatim thinkEnd (before ++ body) (some toolStart)
    have whole := congrArg List.length (splitSub_spec split).1
    have startLength : thinkStart.length = 10 := by decide
    rw [short] at bound
    simp only [List.length_append, List.length_nil] at bound total whole
    omega

/-- The streaming parse gives what the one-shot parse gives, for every cutting of a completion, iff
the completion is faithful. -/
theorem stream_eq_detectAndParse_iff :
    (∀ pieces, pieces.flatten = text → (create forceReasoning streamReasoning).stream pieces =
      (create forceReasoning streamReasoning).detectAndParse text) ↔ Faithful forceReasoning text := by
  constructor
  · intro agree
    cases forceReasoning with
    | true =>
      have whole := agree [text] (by simp)
      rw [stream_of_decided rfl, detectAndParse_reasoning] at whole
      have free : ¬ thinkStart <:+: text := by
        intro occurs
        cases split : splitSub thinkStart text with
        | none => exact splitSub_eq_none_iff.mp split occurs
        | some found =>
          exact length_divided_lt split ((base_stream_whole split).symm.trans whole)
      have tight := closeTight_of_whole ((base_stream_whole_reasoning free).symm.trans whole)
      refine ⟨free, ?_, tight⟩
      refine @holdBounded_of_cuts (baseParser true streamReasoning) text marks_miniMaxM3 rfl rfl
        (.inr free) fun n => ?_
      have cut := agree [text.take n, text.drop n] (by simp)
      rw [stream_of_decided rfl, detectAndParse_reasoning, BaseReasoningParser.stream] at cut
      have first : ¬ thinkStart <:+: text.take n := fun occurs =>
        free (occurs.trans (List.take_prefix _ _).isInfix)
      have step : (baseParser true streamReasoning).parseStreamingIncrement (text.take n) =
          (baseParser true streamReasoning).route (text.take n) :=
        BaseReasoningParser.parseStreamingIncrement_of_settled (.inr first)
      rw [← step]
      exact cut
    | false =>
      rw [Faithful, if_neg Bool.false_ne_true]
      by_cases closer : thinkEnd <+: lstrip text
      · rw [if_pos closer]
        exact free_of_agree_closer closer (agree [text] (by simp))
      · rw [if_neg closer]
        intro before body split
        have all : AllAgree streamReasoning text before body := ⟨closer, split, agree⟩
        by_cases some_ : before = []
        · subst some_
          exact .inl ⟨rfl, all.holdBounded, all.closeTight⟩
        · have absent := all.not_closed some_
          have occurs : toolStart <:+: body := by
            by_contra free
            exact some_ (all.nothing_before absent free)
          have held := all.held some_ absent occurs
          exact .inr ⟨all.toolRow_before absent held, held, absent⟩
  · rintro faithful pieces rfl
    exact stream_of_faithful faithful

end

/-- Whitespace before the closing marker is reasoning for the one-shot parse and lost in a stream. -/
theorem blank_before_closer_lost :
    (create true true).stream ["a </mm:think>b".toList] = ⟨"a".toList, "b".toList⟩ ∧
      (create true true).detectAndParse "a </mm:think>b".toList =
        ⟨"a ".toList, "b".toList⟩ := by
  decide

end FreeSwarm.Server.MiniMaxM3ReasoningParser
