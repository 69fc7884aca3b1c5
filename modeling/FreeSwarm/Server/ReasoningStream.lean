import FreeSwarm.Server.ReasoningParser

/-!
# What a stream of pieces makes of a completion

Once the text that arrives is known to be reasoning, the pieces it arrives in do not matter: the
reasoning ends at the first closing marker, else at the first tool marker. `ThinkOutcome` says so of
a result, and leaves open only the whitespace before a closing marker. A closing marker so far
behind a tool marker that the tool block was given away before is the one exception.
-/

namespace FreeSwarm.Server

open FreeSwarm.Foundation

structure Marks (start close : List Char) (tool : Option (List Char)) : Prop where
  start_ne : start ≠ []
  close_ne : close ≠ []
  tool_solid : ∀ mark ∈ tool, lstrip mark = mark ∧ mark ≠ []
  close_short : close.length ≤ BaseReasoningParser.toolHoldMax
  tool_apart : ∀ mark ∈ tool, ¬ mark <:+: close

/-- The result for a text that starts inside the reasoning. -/
def ThinkOutcome (close : List Char) (tool : Option (List Char)) (text : List Char)
    (r : ReasoningParseResult) : Prop :=
  match splitSub close text with
  | some (reasoning, rest) =>
    (∃ blank, Blank blank ∧ reasoning = r.reasoningText ++ blank) ∧ r.normalText = rest
  | none =>
    match tool.bind (cutSub · text) with
    | some (reasoning, block) => r = ⟨reasoning, block⟩
    | none => r = ⟨text, []⟩

/-- A closing marker behind a tool marker comes before the block is longer than what is held. -/
def HoldBounded (close : List Char) (tool : Option (List Char)) (text : List Char) : Prop :=
  ∀ reasoning rest, splitSub close text = some (reasoning, rest) →
    ∀ before block, tool.bind (cutSub · text) = some (before, block) →
      before.length < reasoning.length →
      reasoning.length + close.length ≤ before.length + BaseReasoningParser.toolHoldMax + 1

section
variable {close : List Char} {tool : Option (List Char)} {front text : List Char}
  {r : ReasoningParseResult}

theorem ThinkOutcome.of_close {reasoning rest : List Char}
    (split : splitSub close text = some (reasoning, rest))
    (trimmed : ∃ blank, Blank blank ∧ reasoning = r.reasoningText ++ blank)
    (same : r.normalText = rest) : ThinkOutcome close tool text r := by
  simp only [ThinkOutcome, split]
  exact ⟨trimmed, same⟩

theorem ThinkOutcome.of_tool {before block : List Char} (absent : splitSub close text = none)
    (cut : tool.bind (cutSub · text) = some (before, block)) :
    ThinkOutcome close tool text ⟨before, block⟩ := by
  simp only [ThinkOutcome, absent, cut]

theorem ThinkOutcome.of_open (absent : splitSub close text = none)
    (untouched : tool.bind (cutSub · text) = none) : ThinkOutcome close tool text ⟨text, []⟩ := by
  simp only [ThinkOutcome, absent, untouched]

theorem toolCut_skip (clear : ∀ mark ∈ tool, ClearBelow mark front.length (front ++ text)) :
    tool.bind (cutSub · (front ++ text)) =
      (tool.bind (cutSub · text)).map fun (before, block) => (front ++ before, block) := by
  cases tool with
  | none => rfl
  | some mark => exact cutSub_skip (clear mark rfl)

theorem ThinkOutcome.skip (closeClear : ClearBelow close front.length (front ++ text))
    (toolClear : ∀ mark ∈ tool, ClearBelow mark front.length (front ++ text))
    (h : ThinkOutcome close tool text r) :
    ThinkOutcome close tool (front ++ text) (⟨front, []⟩ ++ r) := by
  obtain ⟨reasoningText, normalText⟩ := r
  rw [ThinkOutcome, splitSub_skip closeClear, toolCut_skip toolClear]
  rw [ThinkOutcome] at h
  cases split : splitSub close text with
  | some found =>
    obtain ⟨reasoning, rest⟩ := found
    simp only [split] at h
    obtain ⟨⟨blank, hblank, rfl⟩, same⟩ := h
    exact ⟨⟨blank, hblank, by simp⟩, same⟩
  | none =>
    simp only [split] at h
    cases cut : tool.bind (cutSub · text) with
    | some found =>
      obtain ⟨before, block⟩ := found
      simp only [cut] at h
      simp only [Option.map_none, Option.map_some, h, ReasoningParseResult.mk_append,
        List.nil_append]
    | none =>
      simp only [cut] at h
      simp only [Option.map_none, h, ReasoningParseResult.mk_append, List.append_nil]

theorem HoldBounded.skip (closeClear : ClearBelow close front.length (front ++ text))
    (toolClear : ∀ mark ∈ tool, ClearBelow mark front.length (front ++ text))
    (h : HoldBounded close tool (front ++ text)) : HoldBounded close tool text := by
  intro reasoning rest split before block cut shorter
  have whole := h (front ++ reasoning) rest (by rw [splitSub_skip closeClear, split, Option.map_some])
    (front ++ before) block (by rw [toolCut_skip toolClear, cut, Option.map_some])
  simp only [List.length_append] at whole
  have bound := whole (by omega)
  omega

end

namespace BaseReasoningParser

def Marked (p : BaseReasoningParser) : Prop :=
  Marks p.thinkStartToken p.thinkEndToken p.toolStartToken

/-- No opening marker is to be taken out of a text any more. -/
def Settled (p : BaseReasoningParser) (text : List Char) : Prop :=
  p.strippedThinkStart = true ∨ ¬ p.thinkStartToken <:+: text

theorem Settled.part {p : BaseReasoningParser} {text part : List Char} (h : p.Settled text)
    (inside : part <:+: text) : p.Settled part :=
  h.imp_right fun free occurs => free (occurs.trans inside)

section
variable {p : BaseReasoningParser} {currentText : List Char} {pieces : List (List Char)}

theorem parseStreamingIncrement_of_settled {piece : List Char}
    (settled : p.Settled (p.buffer ++ piece)) :
    p.parseStreamingIncrement piece = p.route (p.buffer ++ piece) := by
  refine if_neg fun h => ?_
  rcases settled with stripped | free
  · rw [stripped] at h
    exact absurd h.1 (by simp)
  · exact free h.2

theorem splitTrailingPartial_append (p : BaseReasoningParser) (text : List Char) :
    (p.splitTrailingPartial text).1 ++ (p.splitTrailingPartial text).2 = text :=
  splitPartial_append _ _

theorem clear_close (free : ¬ p.thinkEndToken <:+: currentText) (ext : List Char) :
    ClearBelow p.thinkEndToken (p.splitTrailingPartial currentText).1.length
      (currentText ++ ext) :=
  clearBelow_splitPartial (by simp) free ext

theorem clear_tool {mark : List Char} (mem : mark ∈ p.toolStartToken)
    (free : ¬ mark <:+: currentText) (ext : List Char) :
    ClearBelow mark (p.splitTrailingPartial currentText).1.length (currentText ++ ext) := by
  have tool : p.toolStartToken = some mark := mem
  exact clearBelow_splitPartial (by simp [tool]) free ext

theorem clear_start (tracked : p.strippedThinkStart = false)
    (free : ¬ p.thinkStartToken <:+: currentText) (ext : List Char) :
    ClearBelow p.thinkStartToken (p.splitTrailingPartial currentText).1.length
      (currentText ++ ext) :=
  clearBelow_splitPartial (by simp [tracked]) free ext

theorem splitTrailingPartial_suffix (p : BaseReasoningParser) (text : List Char) :
    (p.splitTrailingPartial text).2 <:+ text :=
  ⟨_, p.splitTrailingPartial_append text⟩

theorem stream_content (outside : p.inReasoning = false)
    (settled : p.Settled (p.buffer ++ pieces.flatten)) :
    p.stream pieces = ⟨[], p.buffer ++ pieces.flatten⟩ := by
  induction pieces generalizing p with
  | nil =>
    rw [stream, flush, List.flatten_nil, List.append_nil]
    split_ifs with empty
    · rw [empty]
      rfl
    · rfl
    · simp_all
    · rfl
  | cons piece pieces ih =>
    rw [List.flatten_cons, ← List.append_assoc] at settled ⊢
    have here := settled.part (List.prefix_append (p.buffer ++ piece) _).isInfix
    have step : p.route (p.buffer ++ piece) =
        ({ p with buffer := (p.splitTrailingPartial (p.buffer ++ piece)).2 },
          ⟨[], (p.splitTrailingPartial (p.buffer ++ piece)).1⟩) := by
      simp [route, outside]
    have whole := p.splitTrailingPartial_append (p.buffer ++ piece)
    have tail := @ih { p with buffer := (p.splitTrailingPartial (p.buffer ++ piece)).2 } outside
      (Settled.part (p := p) settled (List.IsSuffix.isInfix
        ⟨(p.splitTrailingPartial (p.buffer ++ piece)).1, by rw [← List.append_assoc, whole]⟩))
    rw [stream, parseStreamingIncrement_of_settled here, step, tail,
      ReasoningParseResult.mk_append, List.nil_append, ← List.append_assoc, whole]

end

/-- A parser in the reasoning whose buffer holds no decided marker, before the rest of a text. -/
structure Reading (p : BaseReasoningParser) (rest : List Char) : Prop where
  inside : p.inReasoning = true
  settled : p.Settled (p.buffer ++ rest)
  bounded : HoldBounded p.thinkEndToken p.toolStartToken (p.buffer ++ rest)
  unclosed : ¬ p.thinkEndToken <:+: p.buffer
  toolFirst : ∀ mark ∈ p.toolStartToken, mark <:+: p.buffer → mark <+: p.buffer

section
variable {p : BaseReasoningParser} {currentText : List Char} {pieces : List (List Char)}

/-- The end of the stream: a held tool block is content, anything else reasoning. -/
theorem Reading.flush (h : p.Reading []) (marked : p.Marked) :
    ThinkOutcome p.thinkEndToken p.toolStartToken p.buffer p.flush.2 := by
  have absent := splitSub_eq_none h.unclosed
  rw [BaseReasoningParser.flush]
  split_ifs with empty held
  · have untouched : p.toolStartToken.bind (cutSub · p.buffer) = none := by
      refine Option.bind_eq_none_iff.mpr fun mark mem => cutSub_eq_none_iff.mpr fun occurs => ?_
      rw [empty] at occurs
      exact (marked.tool_solid mark mem).2 (List.infix_nil.mp occurs)
    have whole := ThinkOutcome.of_open absent untouched
    rwa [empty] at whole ⊢
  · obtain ⟨mark, mem, starts⟩ := held
    obtain ⟨blank, hblank, whole⟩ := exists_lstrip p.buffer
    have first : mark <+: p.buffer := by
      refine h.toolFirst mark mem ?_
      rw [whole]
      exact starts.isInfix.trans (List.suffix_append _ _).isInfix
    have tool : p.toolStartToken = some mark := mem
    have cut : p.toolStartToken.bind (cutSub · p.buffer) = some ([], p.buffer) := by
      rw [tool]
      exact @cutSub_of_clear _ _ mark [] p.buffer first fun d below => absurd below (by simp)
    exact ThinkOutcome.of_tool absent cut
  · refine ThinkOutcome.of_open absent (Option.bind_eq_none_iff.mpr fun mark mem =>
      cutSub_eq_none_iff.mpr fun occurs => held ⟨mark, mem, ?_⟩)
    obtain ⟨rest, whole⟩ := h.toolFirst mark mem occurs
    obtain ⟨solid, present⟩ := marked.tool_solid mark mem
    obtain ⟨c, tail, rfl⟩ := List.exists_cons_of_ne_nil present
    rw [← whole, lstrip_append_of_cons solid, solid]
    exact List.prefix_append _ _
  · exact absurd h.inside (by assumption)

theorem route_outcome (marked : p.Marked) (inside : p.inReasoning = true)
    (settled : p.Settled (currentText ++ pieces.flatten))
    (bounded : HoldBounded p.thinkEndToken p.toolStartToken (currentText ++ pieces.flatten))
    (later : ∀ buffer, Reading { p with buffer := buffer } pieces.flatten →
      ThinkOutcome p.thinkEndToken p.toolStartToken (buffer ++ pieces.flatten)
        (stream { p with buffer := buffer } pieces)) :
    ThinkOutcome p.thinkEndToken p.toolStartToken (currentText ++ pieces.flatten)
      ((p.route currentText).2 ++ (p.route currentText).1.stream pieces) := by
  have leave : stream { p with buffer := [], inReasoning := false } pieces =
      ⟨[], pieces.flatten⟩ := by
    have outside := @stream_content { p with buffer := [], inReasoning := false } pieces rfl
      (Settled.part (p := p) settled (List.suffix_append _ _).isInfix)
    exact outside
  simp only [route, if_pos inside]
  cases split : splitSub p.thinkEndToken currentText with
  | some found =>
    obtain ⟨reasoning, rest⟩ := found
    obtain ⟨blank, hblank, whole⟩ := exists_rstrip reasoning
    simp only [leave]
    exact .of_close (splitSub_append marked.close_ne split _) ⟨blank, hblank, by simpa using whole⟩
      rfl
  | none =>
    have unclosed := splitSub_eq_none_iff.mp split
    cases cut : p.toolStartToken.bind (cutSub · currentText) with
    | some found =>
      obtain ⟨before, block⟩ := found
      obtain ⟨mark, tool, cut'⟩ := Option.bind_eq_some_iff.mp cut
      obtain ⟨whole, starts, clear⟩ := cutSub_spec cut'
      obtain ⟨solid, present⟩ := marked.tool_solid mark tool
      have clearTool : ClearBelow mark before.length (before ++ (block ++ pieces.flatten)) := by
        rw [← List.append_assoc, ← whole]
        intro d below occurs
        refine clear d below ?_
        have room : before.length + mark.length ≤ currentText.length := by
          rw [whole, List.length_append]
          exact Nat.add_le_add_left starts.length_le _
        have positive := List.length_pos_iff.mpr present
        rw [List.drop_append_of_le_length (by omega)] at occurs
        exact List.prefix_of_prefix_length_le occurs (List.prefix_append _ _)
          (by simp only [List.length_drop]; omega)
      have clearClose : ClearBelow p.thinkEndToken before.length
          (before ++ (block ++ pieces.flatten)) := by
        -- A closing marker that starts before the tool marker and is not complete would hold it.
        intro d below occurs
        refine marked.tool_apart mark tool ?_
        rw [← List.append_assoc, ← whole] at occurs
        have beyond : currentText.length < d + p.thinkEndToken.length := by
          by_contra fits
          exact unclosed (isInfix_of_prefix_drop_append occurs (by omega))
        have room : before.length + mark.length ≤ currentText.length := by
          rw [whole, List.length_append]
          exact Nat.add_le_add_left starts.length_le _
        have here : mark <+: (currentText ++ pieces.flatten).drop before.length := by
          rw [whole, List.append_assoc, List.drop_left]
          exact starts.trans (List.prefix_append _ _)
        obtain ⟨rest, hrest⟩ := occurs
        have later : mark <+: p.thinkEndToken.drop (before.length - d) := by
          have same : (currentText ++ pieces.flatten).drop before.length =
              p.thinkEndToken.drop (before.length - d) ++ rest := by
            rw [← List.drop_append_of_le_length (by omega), hrest, List.drop_drop]
            congr 1
            omega
          rw [same] at here
          exact List.prefix_of_prefix_length_le here (List.prefix_append _ _)
            (by simp only [List.length_drop]; omega)
        exact later.isInfix.trans (List.drop_suffix _ _).isInfix
      have tools : ∀ mark' ∈ p.toolStartToken,
          ClearBelow mark' before.length (before ++ (block ++ pieces.flatten)) := by
        intro mark' mem
        obtain rfl : mark = mark' := Option.some.inj (tool.symm.trans mem)
        exact clearTool
      rw [whole, List.append_assoc] at bounded ⊢
      simp only
      split_ifs with long
      · -- The block is given away, so no closing marker follows it.
        have cutFull : p.toolStartToken.bind (cutSub · (before ++ (block ++ pieces.flatten))) =
            some (before, block ++ pieces.flatten) := by
          rw [tool]
          exact cutSub_of_clear (starts.trans (List.prefix_append _ _)) clearTool
        have absent : splitSub p.thinkEndToken (before ++ (block ++ pieces.flatten)) = none := by
          cases late : splitSub p.thinkEndToken (before ++ (block ++ pieces.flatten)) with
          | none => rfl
          | some found =>
            obtain ⟨reasoning, rest⟩ := found
            have bound := bounded reasoning rest late before _ cutFull
            have short := marked.close_short
            have beyond : currentText.length < reasoning.length + p.thinkEndToken.length := by
              by_contra fits
              refine unclosed (@isInfix_of_prefix_drop_append _ _ currentText pieces.flatten
                reasoning.length ?_ (by omega))
              rw [whole, List.append_assoc, (splitSub_spec late).1, List.append_assoc,
                List.drop_left]
              exact List.prefix_append _ _
            rw [whole, List.length_append] at beyond
            have limit := bound (by omega)
            omega
        rw [leave, ReasoningParseResult.mk_append, List.append_nil]
        exact .of_tool absent cutFull
      · have reading : Reading { p with buffer := block } pieces.flatten :=
          { inside := inside
            settled := by
              refine Settled.part (p := p) settled (List.IsSuffix.isInfix ⟨before, ?_⟩)
              rw [whole, List.append_assoc]
            bounded := bounded.skip clearClose tools
            unclosed := fun occurs => unclosed
              (occurs.trans (by rw [whole]; exact (List.suffix_append _ _).isInfix))
            toolFirst := by
              intro mark' mem _
              obtain rfl : mark = mark' := Option.some.inj (tool.symm.trans mem)
              exact starts }
        exact (later block reading).skip clearClose tools
    | none =>
      have untouched : ∀ mark ∈ p.toolStartToken, ¬ mark <:+: currentText := fun mark mem =>
        cutSub_eq_none_iff.mp (Option.bind_eq_none_iff.mp cut mark mem)
      simp only
      split_ifs with streams
      · have whole := p.splitTrailingPartial_append currentText
        have clearClose := clear_close unclosed pieces.flatten
        have tools : ∀ mark ∈ p.toolStartToken, ClearBelow mark
            (p.splitTrailingPartial currentText).1.length (currentText ++ pieces.flatten) :=
          fun mark mem => clear_tool mem (untouched mark mem) _
        have held := (p.splitTrailingPartial_suffix currentText).isInfix
        generalize (p.splitTrailingPartial currentText).1 = safe at *
        generalize (p.splitTrailingPartial currentText).2 = rest at *
        subst whole
        rw [List.append_assoc] at bounded clearClose tools settled ⊢
        have reading : Reading { p with buffer := rest } pieces.flatten :=
          { inside := inside
            settled := Settled.part (p := p) settled (List.suffix_append _ _).isInfix
            bounded := bounded.skip clearClose tools
            unclosed := fun occurs => unclosed (occurs.trans held)
            toolFirst := fun mark mem occurs => absurd (occurs.trans held) (untouched mark mem) }
        exact (later rest reading).skip clearClose tools
      · exact later currentText
          { inside := inside, settled := settled, bounded := bounded, unclosed := unclosed
            toolFirst := fun mark mem occurs => absurd occurs (untouched mark mem) }

theorem Reading.stream (h : p.Reading pieces.flatten) (marked : p.Marked) :
    ThinkOutcome p.thinkEndToken p.toolStartToken (p.buffer ++ pieces.flatten)
      (p.stream pieces) := by
  induction pieces generalizing p with
  | nil =>
    rw [List.flatten_nil, List.append_nil]
    exact h.flush marked
  | cons piece pieces ih =>
    obtain ⟨inside, settled, bounded, -, -⟩ := h
    rw [List.flatten_cons, ← List.append_assoc] at settled bounded ⊢
    have here := settled.part (List.prefix_append (p.buffer ++ piece) _).isInfix
    rw [BaseReasoningParser.stream, parseStreamingIncrement_of_settled here]
    exact route_outcome marked inside settled bounded fun buffer reading => ih reading marked

theorem stream_route (marked : p.Marked) (inside : p.inReasoning = true)
    (settled : p.Settled (currentText ++ pieces.flatten))
    (bounded : HoldBounded p.thinkEndToken p.toolStartToken (currentText ++ pieces.flatten)) :
    ThinkOutcome p.thinkEndToken p.toolStartToken (currentText ++ pieces.flatten)
      ((p.route currentText).2 ++ (p.route currentText).1.stream pieces) :=
  route_outcome marked inside settled bounded fun _ reading => reading.stream marked

end

end BaseReasoningParser

end FreeSwarm.Server
