import Mathlib.Data.List.Perm.Basic
import FreeSwarm.Server.ReasoningStream

/-!
# The think parser and its pieces

A completion opens its reasoning at most once. `Regular` texts are those whose opening marker comes
first, or inside reasoning that has no other marker yet, and whose tool block is not given away
before a closing marker follows. For these the pieces of a stream do not matter, and the one-shot
parse gives the same up to the whitespace around the two parts.
-/

namespace FreeSwarm.Server

open FreeSwarm.Foundation

/-- The texts whose parse does not depend on the pieces they arrive in. -/
inductive Regular (start close : List Char) (tool : Option (List Char)) (force : Bool) :
    List Char → Prop
  /-- No opening marker. Content, or, inside the reasoning, a tool block that is not given away
  before a closing marker. -/
  | unopened {text : List Char} (free : ¬ start <:+: text)
      (bounded : force = true → HoldBounded close tool text) : Regular start close tool force text
  | opened {front body : List Char}
      (first : ClearBelow start front.length (front ++ start ++ body))
      (once : ¬ start <:+: body) (bounded : HoldBounded close tool (front ++ body))
      (leading : if force then ClearBelow close front.length (front ++ body) ∧
          ∀ mark ∈ tool, ClearBelow mark front.length (front ++ body)
        else Blank front) : Regular start close tool force (front ++ start ++ body)

structure Apart (mark start : List Char) : Prop where
  outside : ¬ mark <:+: start
  across : ∀ k < mark.length, k ≠ 0 → ¬ mark.drop k <+: start

theorem Apart.free {mark start front : List Char} (apart : Apart mark start)
    (free : ClearBelow mark front.length front) : ¬ mark <:+: front ++ start := by
  intro occurs
  obtain ⟨d, hd⟩ := isInfix_iff_exists_drop.mp occurs
  by_cases inside : d < front.length
  · by_cases fits : d + mark.length ≤ front.length
    · rw [List.drop_append_of_le_length (by omega)] at hd
      exact free d inside (List.prefix_of_prefix_length_le hd (List.prefix_append _ _)
        (by simp only [List.length_drop]; omega))
    · -- The marker reaches over the end of the text into the opening marker.
      refine apart.across (front.length - d) (by omega) (by omega) ?_
      obtain ⟨rest, hrest⟩ := hd
      refine ⟨rest, ?_⟩
      rw [← List.drop_append_of_le_length (by omega), hrest, List.drop_drop]
      have start_at : d + (front.length - d) = front.length := by omega
      rw [start_at, List.drop_left]
  · exact apart.outside (isInfix_of_prefix_drop_right hd (by omega))

def aside (inReasoning : Bool) (text : List Char) : ReasoningParseResult :=
  if inReasoning then ⟨text, []⟩ else ⟨[], text⟩

@[simp] theorem aside_append (inReasoning : Bool) (text text' : List Char) :
    aside inReasoning (text ++ text') = aside inReasoning text ++ aside inReasoning text' := by
  cases inReasoning <;> rfl

theorem aside_nil (inReasoning : Bool) : aside inReasoning [] = .empty := by
  cases inReasoning <;> rfl

namespace BaseReasoningParser

section
variable {p : BaseReasoningParser} {pieces : List (List Char)} {front body currentText : List Char}

/-- An increment without a decided marker gives away part of the text and keeps the rest. -/
theorem route_undecided
    (unclosed : p.inReasoning = true → ¬ p.thinkEndToken <:+: currentText ∧
      ∀ mark ∈ p.toolStartToken, ¬ mark <:+: currentText) :
    ∃ safe held, currentText = safe ++ held ∧
      p.route currentText = ({ p with buffer := held }, aside p.inReasoning safe) ∧
      safe.length ≤ (p.splitTrailingPartial currentText).1.length := by
  have whole := (p.splitTrailingPartial_append currentText).symm
  cases inside : p.inReasoning with
  | false =>
    exact ⟨_, _, whole, by simp [route, inside, aside], le_rfl⟩
  | true =>
    obtain ⟨noClose, noTool⟩ := unclosed inside
    have split := splitSub_eq_none noClose
    have cut : p.toolStartToken.bind (cutSub · currentText) = none :=
      Option.bind_eq_none_iff.mpr fun mark mem => cutSub_eq_none_iff.mpr (noTool mark mem)
    by_cases streams : p.streamReasoning = true
    · exact ⟨_, _, whole, by simp [route, inside, split, cut, streams, aside], le_rfl⟩
    · exact ⟨[], currentText, rfl,
        by simp [route, inside, split, cut, streams, aside, ReasoningParseResult.empty],
        Nat.zero_le _⟩

/-- A text that reaches its opening marker: what is given away before is on the side the parser was
on, the rest is reasoning. -/
theorem stream_opening (marked : p.Marked) (tracked : p.strippedThinkStart = false)
    (pending : ¬ p.thinkStartToken <:+: p.buffer)
    (whole : p.buffer ++ pieces.flatten = front ++ p.thinkStartToken ++ body)
    (first : ClearBelow p.thinkStartToken front.length (front ++ p.thinkStartToken ++ body))
    (bounded : ∀ rest, rest <:+ front →
      HoldBounded p.thinkEndToken p.toolStartToken (rest ++ body))
    (undecided : p.inReasoning = true → ¬ p.thinkEndToken <:+: front ++ p.thinkStartToken ∧
      ∀ mark ∈ p.toolStartToken, ¬ mark <:+: front ++ p.thinkStartToken) :
    ∃ before after r, front = before ++ after ∧
      ThinkOutcome p.thinkEndToken p.toolStartToken (after ++ body) r ∧
      p.stream pieces = aside p.inReasoning before ++ r := by
  induction pieces generalizing p front with
  | nil =>
    refine absurd ?_ pending
    rw [List.flatten_nil, List.append_nil] at whole
    rw [whole]
    exact ⟨front, body, rfl⟩
  | cons piece pieces ih =>
    rw [List.flatten_cons, ← List.append_assoc] at whole
    rw [stream, parseStreamingIncrement]
    cases split : splitSub p.thinkStartToken (p.buffer ++ piece) with
    | some found =>
      obtain ⟨left, right⟩ := found
      have complete : p.thinkStartToken <:+: p.buffer ++ piece := by
        by_contra free
        simp [splitSub_eq_none free] at split
      have full := splitSub_append marked.start_ne split pieces.flatten
      rw [whole, splitSub_of_clear first] at full
      cases Option.some.inj full
      have removed : removeFirst p.thinkStartToken (p.buffer ++ piece) = front ++ right := by
        simp only [removeFirst, split]
      refine ⟨[], front, _, rfl, ?_, by rw [aside_nil, ReasoningParseResult.empty_append]⟩
      simp only [tracked, complete, removed, and_self, if_true]
      rw [← List.append_assoc]
      refine @stream_route { p with strippedThinkStart := true, inReasoning := true }
        (front ++ right) pieces marked rfl (.inl rfl) ?_
      rw [List.append_assoc]
      exact bounded front List.suffix_rfl
    | none =>
      have free := splitSub_eq_none_iff.mp split
      -- The pieces so far are a part of the text before the end of the opening marker.
      have before : p.buffer ++ piece <+: front ++ p.thinkStartToken := by
        refine @List.prefix_of_prefix_length_le _ _ _ (front ++ p.thinkStartToken ++ body)
          (whole ▸ List.prefix_append _ _) (List.prefix_append _ _) ?_
        by_contra longer
        refine free (isInfix_iff_exists_drop.mpr ⟨front.length, ?_⟩)
        have here : p.thinkStartToken <+:
            (p.buffer ++ piece ++ pieces.flatten).drop front.length := by
          rw [whole, List.append_assoc, List.drop_left]
          exact List.prefix_append _ _
        rw [@List.length_append _ front] at longer
        rw [List.drop_append_of_le_length (by omega)] at here
        exact List.prefix_of_prefix_length_le here (List.prefix_append _ _)
          (by simp only [List.length_drop]; omega)
      obtain ⟨safe, held, current, routed, short⟩ := @route_undecided p (p.buffer ++ piece)
        fun inside => ⟨fun occurs => (undecided inside).1 (occurs.trans before.isInfix),
          fun mark mem occurs => (undecided inside).2 mark mem (occurs.trans before.isInfix)⟩
      have atFront : safe.length ≤ front.length := by
        by_contra longer
        have clear := clear_start tracked free pieces.flatten
        rw [whole] at clear
        refine clear front.length (by omega) ?_
        rw [List.append_assoc, List.drop_left]
        exact List.prefix_append _ _
      obtain ⟨front', rfl⟩ : safe <+: front := by
        refine @List.prefix_of_prefix_length_le _ _ _ (front ++ p.thinkStartToken ++ body) ?_
          (by rw [List.append_assoc]; exact List.prefix_append _ _) atFront
        rw [← whole, current, List.append_assoc]
        exact List.prefix_append _ _
      have rest : held ++ pieces.flatten = front' ++ p.thinkStartToken ++ body := by
        rw [current] at whole
        simpa [List.append_assoc] using whole
      obtain ⟨before', after, r, rfl, outcome, text⟩ := @ih { p with buffer := held } front' marked
        tracked (fun occurs => free (occurs.trans (current ▸ (List.suffix_append _ _).isInfix)))
        rest
        (by
          rw [List.append_assoc, List.append_assoc, List.length_append] at first
          rw [List.append_assoc]
          exact first.drop)
        (fun rest' inside => bounded rest' (inside.trans (List.suffix_append _ _)))
        (fun inside => by
          have part : front' ++ p.thinkStartToken <:+: safe ++ front' ++ p.thinkStartToken := by
            rw [List.append_assoc safe]
            exact (List.suffix_append _ _).isInfix
          exact ⟨fun occurs => (undecided inside).1 (occurs.trans part),
            fun mark mem occurs => (undecided inside).2 mark mem (occurs.trans part)⟩)
      refine ⟨safe ++ before', after, r, (List.append_assoc _ _ _).symm, outcome, ?_⟩
      rw [if_neg (fun h => free h.2), routed, text, aside_append,
        ReasoningParseResult.append_assoc]

end

end BaseReasoningParser

/-! ## The one-shot parse -/

section
variable {p : BaseReasoningParser} {text : List Char} {r : ReasoningParseResult}

theorem ThinkOutcome.sameTrimmed (close : Solid p.thinkEndToken)
    (tool : ∀ mark ∈ p.toolStartToken, Solid mark)
    (h : ThinkOutcome p.thinkEndToken p.toolStartToken text r) :
    r.SameTrimmed (p.divide (strip text)) := by
  obtain ⟨before, after, hbefore, hafter, whole⟩ := exists_strip text
  have split : splitSub p.thinkEndToken text =
      (splitSub p.thinkEndToken (strip text)).map fun parts =>
        (before ++ parts.1, parts.2 ++ after) := by
    conv_lhs => rw [whole]
    exact splitSub_between_blanks close hbefore hafter
  have cut : p.toolStartToken.bind (cutSub · text) =
      (p.toolStartToken.bind (cutSub · (strip text))).map fun parts =>
        (before ++ parts.1, parts.2 ++ after) := by
    cases known : p.toolStartToken with
    | none => rfl
    | some mark =>
      conv_lhs => rw [whole]
      exact cutSub_between_blanks (tool mark known) hbefore hafter
  rw [ThinkOutcome, split, cut] at h
  unfold BaseReasoningParser.divide
  cases inner : splitSub p.thinkEndToken (strip text) with
  | some found =>
    obtain ⟨reasoning, rest⟩ := found
    rw [inner] at h
    obtain ⟨⟨blank, hblank, same⟩, normal⟩ := h
    refine ⟨?_, ?_⟩
    · change strip r.reasoningText = strip reasoning
      rw [← strip_of_append_blank hblank, ← same, strip_append_of_blank hbefore]
    · change strip r.normalText = strip (strip rest)
      rw [normal, strip_of_append_blank hafter, strip_strip]
  | none =>
    rw [inner] at h
    cases innerCut : p.toolStartToken.bind (cutSub · (strip text)) with
    | some found =>
      obtain ⟨reasoning, block⟩ := found
      rw [innerCut] at h
      obtain rfl : r = ⟨before ++ reasoning, block ++ after⟩ := h
      refine ⟨?_, ?_⟩
      · change strip (before ++ reasoning) = strip (strip reasoning)
        rw [strip_append_of_blank hbefore, strip_strip]
      · exact strip_of_append_blank hafter block
    | none =>
      rw [innerCut] at h
      obtain rfl : r = ⟨text, []⟩ := h
      exact ⟨(strip_strip text).symm, rfl⟩

/-- A result gives every character of a text once, up to the closing marker and whitespace before
it. -/
theorem ThinkOutcome.accounts (h : ThinkOutcome p.thinkEndToken p.toolStartToken text r) :
    ∃ marks blank, marks ∈ [[], p.thinkEndToken] ∧ Blank blank ∧
      text.Perm (r.reasoningText ++ r.normalText ++ (marks ++ blank)) := by
  rw [ThinkOutcome] at h
  cases split : splitSub p.thinkEndToken text with
  | some found =>
    obtain ⟨reasoning, rest⟩ := found
    simp only [split] at h
    obtain ⟨⟨blank, hblank, rfl⟩, rfl⟩ := h
    refine ⟨p.thinkEndToken, blank, by simp, hblank, ?_⟩
    rw [(splitSub_spec split).1, List.append_assoc, List.append_assoc, List.append_assoc]
    refine List.Perm.append_left _ ?_
    calc (blank ++ (p.thinkEndToken ++ r.normalText)).Perm
          (p.thinkEndToken ++ r.normalText ++ blank) := List.perm_append_comm
      _ |>.Perm (r.normalText ++ p.thinkEndToken ++ blank) :=
          List.perm_append_comm.append_right blank
      _ = r.normalText ++ (p.thinkEndToken ++ blank) := List.append_assoc _ _ _
  | none =>
    simp only [split] at h
    cases cut : p.toolStartToken.bind (cutSub · text) with
    | some found =>
      obtain ⟨before, block⟩ := found
      simp only [cut] at h
      obtain ⟨mark, -, cut'⟩ := Option.bind_eq_some_iff.mp cut
      refine ⟨[], [], by simp, blank_nil, ?_⟩
      rw [h, (cutSub_spec cut').1]
      simp
    | none =>
      simp only [cut] at h
      refine ⟨[], [], by simp, blank_nil, ?_⟩
      rw [h]
      simp

end

/-! ## The think families -/

theorem solid_thinkEndToken : Solid thinkEndToken := ⟨by decide, by decide, by decide⟩

theorem solid_dsmlMarker : Solid dsmlMarker := ⟨by decide, by decide, by decide⟩

theorem apart_thinkEndToken : Apart thinkEndToken thinkStartToken := ⟨by decide, by decide⟩

theorem apart_dsmlMarker : Apart dsmlMarker thinkStartToken := ⟨by decide, by decide⟩

theorem marks_think {tool : Option (List Char)} (known : tool = none ∨ tool = some dsmlMarker) :
    Marks thinkStartToken thinkEndToken tool where
  start_ne := by decide
  close_ne := by decide
  tool_solid := by
    rintro mark mem
    obtain rfl : mark = dsmlMarker := by
      rcases known with rfl | rfl
      · exact absurd mem (by simp)
      · exact (Option.some.inj mem).symm
    exact ⟨solid_dsmlMarker.head, solid_dsmlMarker.ne⟩
  close_short := by decide
  tool_apart := by
    rintro mark mem
    obtain rfl : mark = dsmlMarker := by
      rcases known with rfl | rfl
      · exact absurd mem (by simp)
      · exact (Option.some.inj mem).symm
    decide

theorem HoldBounded.of_blank {close blank text : List Char} {tool : Option (List Char)}
    (solid : Solid close) (tools : ∀ mark ∈ tool, Solid mark) (h : Blank blank)
    (bounded : HoldBounded close tool (blank ++ text)) : HoldBounded close tool text :=
  bounded.skip (clearBelow_blank solid.ne solid.head h text)
    fun mark mem => clearBelow_blank (tools mark mem).ne (tools mark mem).head h text

structure StreamAgrees (p : BaseReasoningParser) (pieces : List (List Char)) : Prop where
  same : (p.stream pieces).SameTrimmed (p.detectAndParse pieces.flatten)
  once : ∃ opening closing blank, opening ∈ [[], p.thinkStartToken] ∧
    closing ∈ [[], p.thinkEndToken] ∧ Blank blank ∧
    pieces.flatten.Perm ((p.stream pieces).reasoningText ++ (p.stream pieces).normalText ++
      (opening ++ closing ++ blank))

section
variable {force streamReasoning : Bool} {tool : Option (List Char)} {pieces : List (List Char)}
  {text front before after body : List Char}

def thinkParser (force streamReasoning : Bool) (tool : Option (List Char)) : BaseReasoningParser :=
  .create thinkStartToken thinkEndToken force streamReasoning tool

theorem solid_of_known (known : tool = none ∨ tool = some dsmlMarker) :
    ∀ mark ∈ tool, Solid mark := by
  intro mark mem
  rcases known with rfl | rfl
  · exact absurd mem (by simp)
  · exact Option.some.inj mem ▸ solid_dsmlMarker

theorem streamAgrees_content (free : ¬ thinkStartToken <:+: pieces.flatten) :
    StreamAgrees (thinkParser false streamReasoning tool) pieces := by
  have content : (thinkParser false streamReasoning tool).stream pieces = ⟨[], pieces.flatten⟩ :=
    BaseReasoningParser.stream_content rfl (.inr free)
  have shot : (thinkParser false streamReasoning tool).detectAndParse pieces.flatten =
      ⟨[], pieces.flatten⟩ :=
    if_neg fun h => h.elim Bool.false_ne_true free
  exact ⟨by rw [content, shot]; exact ⟨rfl, rfl⟩,
    [], [], [], by simp, by simp, blank_nil, by rw [content]; simp⟩

/-- Without an opening marker, a completion inside the reasoning is divided at the closing marker or
the tool block. -/
theorem streamAgrees_reasoning (known : tool = none ∨ tool = some dsmlMarker)
    (free : ¬ thinkStartToken <:+: pieces.flatten)
    (bounded : HoldBounded thinkEndToken tool pieces.flatten) :
    StreamAgrees (thinkParser true streamReasoning tool) pieces := by
  have solids := solid_of_known known
  have reading : (thinkParser true streamReasoning tool).Reading pieces.flatten :=
    { inside := rfl
      settled := .inr free
      bounded := bounded
      unclosed := fun occurs => absurd (List.infix_nil.mp occurs) solid_thinkEndToken.ne
      toolFirst := fun mark mem occurs => absurd (List.infix_nil.mp occurs) (solids mark mem).ne }
  have outcome : ThinkOutcome thinkEndToken tool pieces.flatten _ :=
    reading.stream (marks_think known)
  have shot : (thinkParser true streamReasoning tool).detectAndParse pieces.flatten =
      (thinkParser true streamReasoning tool).divide (strip pieces.flatten) := by
    rw [BaseReasoningParser.detectAndParse, if_pos (.inl rfl)]
    exact congrArg (fun text => (thinkParser true streamReasoning tool).divide (strip text))
      (removeAll_of_free free)
  obtain ⟨closing, blank, mem, hblank, perm⟩ := outcome.accounts
    (p := thinkParser true streamReasoning tool)
  exact ⟨by rw [shot]; exact outcome.sameTrimmed solid_thinkEndToken solids,
    [], closing, blank, by simp, mem, hblank, perm⟩

/-- What is given away before the opening marker changes nothing up to whitespace: it is whitespace,
or reasoning in front of reasoning. -/
theorem aside_outcome {r : ReasoningParseResult} (solids : ∀ mark ∈ tool, Solid mark)
    (leading : if force then ClearBelow thinkEndToken before.length (before ++ text) ∧
        ∀ mark ∈ tool, ClearBelow mark before.length (before ++ text)
      else Blank before)
    (outcome : ThinkOutcome thinkEndToken tool text r) :
    (aside force before ++ r).SameTrimmed
        ((thinkParser force streamReasoning tool).divide (strip (before ++ text))) ∧
      ∃ closing blank, closing ∈ [[], thinkEndToken] ∧ Blank blank ∧
        (before ++ text).Perm ((aside force before ++ r).reasoningText ++
          (aside force before ++ r).normalText ++ (closing ++ blank)) := by
  obtain ⟨closing, blank, mem, hblank, perm⟩ := outcome.accounts
    (p := thinkParser force streamReasoning tool)
  have whole := perm.append_left before
  cases force with
  | false =>
    obtain ⟨reasoning, normal⟩ := outcome.sameTrimmed
      (p := thinkParser false streamReasoning tool) solid_thinkEndToken solids
    rw [strip_append_of_blank leading]
    refine ⟨⟨reasoning, ?_⟩, closing, blank, mem, hblank, whole.trans ?_⟩
    · change strip (before ++ r.normalText) = _
      rw [strip_append_of_blank leading]
      exact normal
    · change (before ++ (r.reasoningText ++ r.normalText ++ (closing ++ blank))).Perm
        (r.reasoningText ++ (before ++ r.normalText) ++ (closing ++ blank))
      rw [← List.append_assoc]
      refine List.Perm.append_right _ ?_
      rw [← List.append_assoc, ← List.append_assoc]
      exact List.perm_append_comm.append_right _
  | true =>
    have further : ThinkOutcome thinkEndToken tool (before ++ text) (⟨before, []⟩ ++ r) :=
      outcome.skip leading.1 leading.2
    refine ⟨further.sameTrimmed (p := thinkParser true streamReasoning tool) solid_thinkEndToken
      solids, closing, blank, mem, hblank, whole.trans (List.Perm.of_eq ?_)⟩
    change before ++ (r.reasoningText ++ r.normalText ++ (closing ++ blank)) =
      before ++ r.reasoningText ++ r.normalText ++ (closing ++ blank)
    simp only [List.append_assoc]

theorem leading_of_append
    (leading : if force then ClearBelow thinkEndToken (before ++ after).length
          (before ++ after ++ body) ∧
        ∀ mark ∈ tool, ClearBelow mark (before ++ after).length (before ++ after ++ body)
      else Blank (before ++ after)) :
    if force then ClearBelow thinkEndToken before.length (before ++ (after ++ body)) ∧
        ∀ mark ∈ tool, ClearBelow mark before.length (before ++ (after ++ body))
      else Blank before := by
  rw [← List.append_assoc]
  cases force with
  | false => exact fun c mem => leading c (List.mem_append_left _ mem)
  | true =>
    exact ⟨leading.1.mono (by simp), fun mark mem => (leading.2 mark mem).mono (by simp)⟩

theorem streamAgrees_opened (known : tool = none ∨ tool = some dsmlMarker)
    (whole : pieces.flatten = front ++ thinkStartToken ++ body)
    (first : ClearBelow thinkStartToken front.length (front ++ thinkStartToken ++ body))
    (once : ¬ thinkStartToken <:+: body) (bounded : HoldBounded thinkEndToken tool (front ++ body))
    (leading : if force then ClearBelow thinkEndToken front.length (front ++ body) ∧
        ∀ mark ∈ tool, ClearBelow mark front.length (front ++ body)
      else Blank front) :
    StreamAgrees (thinkParser force streamReasoning tool) pieces := by
  have solids := solid_of_known known
  obtain ⟨before, after, r, rfl, outcome, text⟩ :=
    @BaseReasoningParser.stream_opening (thinkParser force streamReasoning tool) pieces front body
      (marks_think known) rfl
      (fun occurs => absurd (List.infix_nil.mp occurs) (marks_think known).start_ne) whole first
      (by
        rintro rest ⟨gone, rfl⟩
        have early := leading_of_append leading
        rw [List.append_assoc] at bounded
        cases force with
        | false => exact bounded.of_blank solid_thinkEndToken solids early
        | true => exact bounded.skip early.1 early.2)
      (by
        rintro inside
        obtain rfl : force = true := inside
        refine ⟨apart_thinkEndToken.free leading.1.of_append, fun mark mem => ?_⟩
        have apart : Apart mark thinkStartToken := by
          rcases known with rfl | rfl
          · exact absurd (show mark ∈ none from mem) (by simp)
          · exact Option.some.inj mem ▸ apart_dsmlMarker
        exact apart.free (leading.2 mark mem).of_append)
  have shot : (thinkParser force streamReasoning tool).detectAndParse
        (before ++ after ++ thinkStartToken ++ body) =
      (thinkParser force streamReasoning tool).divide (strip (before ++ (after ++ body))) := by
    have removed : removeAll thinkStartToken (before ++ after ++ thinkStartToken ++ body) =
        before ++ (after ++ body) := by
      rw [removeAll_split (marks_think known).start_ne first, removeAll_of_free once,
        List.append_assoc]
    rw [BaseReasoningParser.detectAndParse, if_pos (.inr ⟨before ++ after, body, rfl⟩)]
    exact congrArg (fun text => (thinkParser force streamReasoning tool).divide (strip text)) removed
  obtain ⟨same, closing, blank, mem, hblank, perm⟩ :=
    @aside_outcome _ streamReasoning _ _ _ _ solids (leading_of_append leading) outcome
  refine ⟨by rw [whole, text, shot]; exact same, thinkStartToken, closing, blank,
    List.mem_cons_of_mem _ List.mem_cons_self, mem, hblank, ?_⟩
  rw [whole, text]
  calc (before ++ after ++ thinkStartToken ++ body).Perm
        (thinkStartToken ++ (before ++ after) ++ body) :=
          List.perm_append_comm.append_right body
    _ = thinkStartToken ++ (before ++ (after ++ body)) := by simp only [List.append_assoc]
    _ |>.Perm (thinkStartToken ++ ((aside force before ++ r).reasoningText ++
          (aside force before ++ r).normalText ++ (closing ++ blank))) := perm.append_left _
    _ |>.Perm ((aside force before ++ r).reasoningText ++ (aside force before ++ r).normalText ++
          (closing ++ blank) ++ thinkStartToken) := List.perm_append_comm
    _ |>.Perm ((aside force before ++ r).reasoningText ++ (aside force before ++ r).normalText ++
          (thinkStartToken ++ closing ++ blank)) := by
          rw [List.append_assoc _ (closing ++ blank), List.append_assoc thinkStartToken]
          exact List.perm_append_comm.append_left _

/-- For a regular text the pieces of the stream do not matter: the reasoning and the content are
those of the one-shot parse up to the whitespace around each, and every other character than the
markers and whitespace is given exactly once. -/
theorem streamAgrees_of_regular (known : tool = none ∨ tool = some dsmlMarker)
    (regular : Regular thinkStartToken thinkEndToken tool force pieces.flatten) :
    StreamAgrees (thinkParser force streamReasoning tool) pieces := by
  generalize whole : pieces.flatten = text at regular
  cases regular with
  | unopened free bounded =>
    subst whole
    cases force with
    | false => exact streamAgrees_content free
    | true => exact streamAgrees_reasoning known free (bounded rfl)
  | opened first once bounded leading =>
    exact streamAgrees_opened known whole first once bounded leading

end

/-- A completion that opens and closes its reasoning, in three pieces that cut both markers. -/
theorem streamAgrees_of_regular_small :
    StreamAgrees (thinkParser false true (some dsmlMarker))
      ["<thi".toList, "nk>a</".toList, "think>b".toList] :=
  streamAgrees_of_regular (.inr rfl)
    (@Regular.opened _ _ _ false [] "a</think>b".toList (fun _ below => absurd below (by simp))
      (by decide)
      (fun reasoning rest _ before block cut _ => absurd cut (by
        have absent : cutSub dsmlMarker "a</think>b".toList = none := by decide
        change cutSub dsmlMarker "a</think>b".toList ≠ _
        rw [absent]
        simp))
      blank_nil)

/-- Text before an opening marker is reasoning when it arrives with the marker and content when it
arrives before; the one-shot parse makes it reasoning. -/
theorem pieces_matter_before_opening :
    (thinkParser false true none).stream ["a<think>b".toList] = ⟨"ab".toList, []⟩ ∧
      (thinkParser false true none).stream ["a".toList, "<think>b".toList] =
        ⟨"b".toList, "a".toList⟩ ∧
      (thinkParser false true none).detectAndParse "a<think>b".toList = ⟨"ab".toList, []⟩ := by
  decide

end FreeSwarm.Server
