import FreeSwarm.Server.ThinkParser
import FreeSwarm.Server.MiniMaxM3Parser

/-!
# The head and the body of a MiniMax M3 stream

A stream of MiniMax M3 is a stream of the base parser behind the head of the completion. A closing
marker at the head is dropped; any other head is given to the base parser unchanged. Behind an
opening marker the two parses then differ only in the whitespace before the closing marker and in a
tool block given away too early.
-/

namespace FreeSwarm.Server

open FreeSwarm.Foundation

def verbatim (close : List Char) (tool : Option (List Char)) (text : List Char) :
    ReasoningParseResult :=
  match splitSub close text with
  | some (reasoning, rest) => ⟨reasoning, rest⟩
  | none =>
    match tool.bind (cutSub · text) with
    | some (reasoning, block) => ⟨reasoning, block⟩
    | none => ⟨text, []⟩

/-- No whitespace comes right before the closing marker. -/
def CloseTight (close text : List Char) : Prop :=
  ∀ reasoning rest, splitSub close text = some (reasoning, rest) → rstrip reasoning = reasoning

/-- What a single piece gives of a text inside the reasoning. -/
def divided (close : List Char) (tool : Option (List Char)) (text : List Char) :
    ReasoningParseResult :=
  if close <:+: text then
    ⟨rstrip (verbatim close tool text).reasoningText, (verbatim close tool text).normalText⟩
  else verbatim close tool text

section
variable {close text : List Char} {tool : Option (List Char)} {r : ReasoningParseResult}

theorem eq_nil_of_rstrip_append {front blank : List Char} (h : Blank blank)
    (kept : rstrip (front ++ blank) = front ++ blank) : blank = [] := by
  have shorter := congrArg List.length (rstrip_append_of_blank h front)
  obtain ⟨blank', -, whole⟩ := exists_rstrip front
  have bound := congrArg List.length whole
  rw [kept] at shorter
  simp only [List.length_append] at shorter bound
  exact List.length_eq_zero_iff.mp (by omega)

theorem ThinkOutcome.eq_verbatim (h : ThinkOutcome close tool text r)
    (tight : CloseTight close text) : r = verbatim close tool text := by
  rw [ThinkOutcome] at h
  rw [verbatim]
  cases split : splitSub close text with
  | some found =>
    obtain ⟨reasoning, rest⟩ := found
    simp only [split] at h
    obtain ⟨⟨blank, hblank, rfl⟩, rfl⟩ := h
    obtain rfl := eq_nil_of_rstrip_append hblank (tight _ _ split)
    simp
  | none =>
    simp only [split] at h
    cases cut : tool.bind (cutSub · text) with
    | some found => simpa only [cut] using h
    | none => simpa only [cut] using h

theorem length_verbatim :
    (verbatim close tool text).reasoningText.length + (verbatim close tool text).normalText.length +
      (if close <:+: text then close.length else 0) = text.length := by
  rw [verbatim]
  cases split : splitSub close text with
  | some found =>
    obtain ⟨reasoning, rest⟩ := found
    have whole := (splitSub_spec split).1
    have occurs : close <:+: text := ⟨reasoning, rest, whole.symm⟩
    have count := congrArg List.length whole
    simp only [List.length_append] at count
    simp only [occurs, if_true]
    omega
  | none =>
    simp only [splitSub_eq_none_iff.mp split, if_false]
    cases cut : tool.bind (cutSub · text) with
    | some found =>
      obtain ⟨reasoning, block⟩ := found
      obtain ⟨mark, -, cut'⟩ := Option.bind_eq_some_iff.mp cut
      have count := congrArg List.length (cutSub_spec cut').1
      simp only [List.length_append] at count
      simp only
      omega
    | none => simp

theorem verbatim_of_split {reasoning rest : List Char}
    (split : splitSub close text = some (reasoning, rest)) :
    verbatim close tool text = ⟨reasoning, rest⟩ := by
  simp only [verbatim, split]

theorem verbatim_of_cut {reasoning block : List Char} (absent : ¬ close <:+: text)
    (cut : tool.bind (cutSub · text) = some (reasoning, block)) :
    verbatim close tool text = ⟨reasoning, block⟩ := by
  simp only [verbatim, splitSub_eq_none absent, cut]

theorem verbatim_of_open (absent : ¬ close <:+: text)
    (untouched : tool.bind (cutSub · text) = none) : verbatim close tool text = ⟨text, []⟩ := by
  simp only [verbatim, splitSub_eq_none absent, untouched]

theorem divided_of_absent (absent : ¬ close <:+: text) :
    divided close tool text = verbatim close tool text := if_neg absent

theorem divided_of_split {reasoning rest : List Char}
    (split : splitSub close text = some (reasoning, rest)) :
    divided close tool text = ⟨rstrip reasoning, rest⟩ := by
  have occurs : close <:+: text := ⟨reasoning, rest, (splitSub_spec split).1.symm⟩
  rw [divided, if_pos occurs, verbatim_of_split split]

theorem length_rstrip_le (text : List Char) : (rstrip text).length ≤ text.length := by
  obtain ⟨blank, -, whole⟩ := exists_rstrip text
  have count := congrArg List.length whole
  rw [List.length_append] at count
  omega

theorem length_divided_le :
    (divided close tool text).reasoningText.length + (divided close tool text).normalText.length ≤
      (verbatim close tool text).reasoningText.length +
        (verbatim close tool text).normalText.length := by
  rw [divided]
  split_ifs
  · exact Nat.add_le_add_right (length_rstrip_le _) _
  · exact le_rfl

end

namespace BaseReasoningParser

section
variable {p : BaseReasoningParser} {text : List Char}

theorem route_flush (marked : p.Marked) (inside : p.inReasoning = true) :
    (p.route text).2 ++ (p.route text).1.flush.2 =
      divided p.thinkEndToken p.toolStartToken text := by
  simp only [route, if_pos inside]
  cases split : splitSub p.thinkEndToken text with
  | some found =>
    obtain ⟨reasoning, rest⟩ := found
    rw [divided_of_split split]
    simp [flush, ReasoningParseResult.empty]
  | none =>
    have absent := splitSub_eq_none_iff.mp split
    rw [divided_of_absent absent]
    cases cut : p.toolStartToken.bind (cutSub · text) with
    | some found =>
      obtain ⟨before, block⟩ := found
      obtain ⟨mark, tool, cut'⟩ := Option.bind_eq_some_iff.mp cut
      rw [verbatim_of_cut absent cut]
      obtain ⟨-, ⟨rest, hrest⟩, -⟩ := cutSub_spec cut'
      obtain ⟨solid, present⟩ := marked.tool_solid mark tool
      obtain ⟨c, tail, rfl⟩ := List.exists_cons_of_ne_nil present
      have starts : c :: tail <+: lstrip block := by
        rw [← hrest, lstrip_append_of_cons solid, solid]
        exact List.prefix_append _ _
      have nonempty : block ≠ [] := by
        rw [← hrest]
        simp
      simp only
      split_ifs with long
      · simp [flush, ReasoningParseResult.empty]
      · have held : ∃ mark ∈ p.toolStartToken, mark <+: lstrip block := ⟨_, tool, starts⟩
        simp only [flush, if_neg nonempty, if_pos held, ReasoningParseResult.mk_append,
          List.append_nil, List.nil_append]
    | none =>
      rw [verbatim_of_open absent cut]
      have whole := p.splitTrailingPartial_append text
      have untouched : ∀ part, part <:+: text → ¬ ∃ mark ∈ p.toolStartToken, mark <+: lstrip part := by
        rintro part inText ⟨mark, mem, starts⟩
        refine cutSub_eq_none_iff.mp (Option.bind_eq_none_iff.mp cut mark mem) ?_
        exact starts.isInfix.trans ((List.dropWhile_suffix _).isInfix.trans inText)
      simp only
      split_ifs with streams
      · have free := untouched _ (p.splitTrailingPartial_suffix text).isInfix
        by_cases empty : (p.splitTrailingPartial text).2 = []
        · rw [empty, List.append_nil] at whole
          simp [flush, empty, whole, ReasoningParseResult.empty]
        · simp only [flush, if_neg empty, if_neg free, inside, if_true,
            ReasoningParseResult.mk_append, whole, List.append_nil]
      · have free := untouched text List.infix_rfl
        by_cases empty : text = []
        · simp [flush, empty, ReasoningParseResult.empty]
        · simp only [flush, if_neg empty, if_neg free, inside, if_true,
            ReasoningParseResult.empty_append]

end

end BaseReasoningParser

/-! ## The head of the stream -/

namespace MiniMaxM3ReasoningParser

theorem marks_miniMaxM3 : Marks thinkStart thinkEnd (some toolStart) where
  start_ne := by decide
  close_ne := by decide
  tool_solid := by
    rintro mark mem
    obtain rfl : toolStart = mark := Option.some.inj mem
    decide
  close_short := by decide
  tool_apart := by
    rintro mark mem
    obtain rfl : toolStart = mark := Option.some.inj mem
    decide

def baseParser (forceReasoning streamReasoning : Bool) : BaseReasoningParser :=
  .create thinkStart thinkEnd forceReasoning streamReasoning (some toolStart)

section
variable {p : MiniMaxM3ReasoningParser} {pieces : List (List Char)} {text : List Char}

theorem stream_of_decided (decided : p.leadingCloserPending = false) :
    p.stream pieces = p.base.stream pieces := by
  induction pieces generalizing p with
  | nil => simp [stream, flush, BaseReasoningParser.stream, decided]
  | cons piece pieces ih =>
    have step : p.parseStreamingIncrement piece = p.deliver piece := by
      simp [parseStreamingIncrement, decided]
    rw [stream, step, deliver, BaseReasoningParser.stream]
    exact congrArg _ (ih decided)

theorem stream_of_diverged {piece : List Char} (pending : p.leadingCloserPending = true)
    (other : ¬ p.base.thinkEndToken <+: lstrip (p.headBuffer ++ piece))
    (decided : ¬ (lstrip (p.headBuffer ++ piece) = [] ∨
      lstrip (p.headBuffer ++ piece) <+: p.base.thinkEndToken)) :
    p.stream (piece :: pieces) = p.base.stream ((p.headBuffer ++ piece) :: pieces) := by
  have step : p.parseStreamingIncrement piece =
      { p with leadingCloserPending := false, headBuffer := [] }.deliver
        (p.headBuffer ++ piece) := by
    simp [parseStreamingIncrement, pending, other, decided]
  rw [stream, step, deliver, BaseReasoningParser.stream]
  exact congrArg _ (stream_of_decided rfl)

theorem stream_of_other (pending : p.leadingCloserPending = true)
    (other : ¬ p.base.thinkEndToken <+: lstrip (p.headBuffer ++ pieces.flatten)) :
    ∃ pieces', pieces'.flatten = p.headBuffer ++ pieces.flatten ∧
      p.stream pieces = p.base.stream pieces' := by
  induction pieces generalizing p with
  | nil =>
    by_cases empty : p.headBuffer = []
    · exact ⟨[], by simp [empty], by
        simp [stream, flush, BaseReasoningParser.stream, empty]⟩
    · refine ⟨[p.headBuffer], by simp, ?_⟩
      simp [stream, flush, deliver, BaseReasoningParser.stream, pending, empty]
  | cons piece pieces ih =>
    rw [List.flatten_cons, ← List.append_assoc] at other
    have here : ¬ p.base.thinkEndToken <+: lstrip (p.headBuffer ++ piece) := by
      intro starts
      obtain ⟨c, rest, stays⟩ : ∃ c rest, lstrip (p.headBuffer ++ piece) = c :: rest := by
        refine List.exists_cons_of_ne_nil fun blank => ?_
        rw [blank, List.prefix_nil] at starts
        exact other (starts ▸ List.nil_prefix)
      refine other ?_
      rw [lstrip_append_of_cons stays]
      exact starts.trans (List.prefix_append _ _)
    by_cases hold : lstrip (p.headBuffer ++ piece) = [] ∨
        lstrip (p.headBuffer ++ piece) <+: p.base.thinkEndToken
    · have step : p.parseStreamingIncrement piece =
          ({ p with headBuffer := p.headBuffer ++ piece }, .empty) := by
        simp [parseStreamingIncrement, pending, here, hold]
      obtain ⟨pieces', whole, same⟩ :=
        @ih { p with headBuffer := p.headBuffer ++ piece } pending other
      refine ⟨pieces', by rw [whole, List.flatten_cons, List.append_assoc], ?_⟩
      rw [stream, step, ReasoningParseResult.empty_append, same]
    · exact ⟨(p.headBuffer ++ piece) :: pieces, by simp [List.append_assoc],
        stream_of_diverged pending here hold⟩

def closed (p : MiniMaxM3ReasoningParser) : MiniMaxM3ReasoningParser :=
  { base := { p.base with inReasoning := false }, leadingCloserPending := false, headBuffer := [] }

theorem stream_of_closer (pending : p.leadingCloserPending = true)
    (waiting : ¬ p.base.thinkEndToken <+: lstrip p.headBuffer)
    (closer : p.base.thinkEndToken <+: lstrip (p.headBuffer ++ pieces.flatten)) :
    ∃ pieces', pieces'.flatten =
        (lstrip (p.headBuffer ++ pieces.flatten)).drop p.base.thinkEndToken.length ∧
      p.stream pieces = p.closed.stream pieces' := by
  induction pieces generalizing p with
  | nil => exact absurd (by simpa using closer) waiting
  | cons piece pieces ih =>
    rw [List.flatten_cons, ← List.append_assoc] at closer ⊢
    by_cases here : p.base.thinkEndToken <+: lstrip (p.headBuffer ++ piece)
    · obtain ⟨rest, hrest⟩ := here
      have whole : (lstrip (p.headBuffer ++ piece ++ pieces.flatten)).drop
          p.base.thinkEndToken.length = rest ++ pieces.flatten := by
        cases stays : lstrip (p.headBuffer ++ piece) with
        | nil =>
          rw [stays, List.append_eq_nil_iff] at hrest
          rw [hrest.1, hrest.2]
          obtain ⟨blank, hblank, back⟩ := exists_lstrip (p.headBuffer ++ piece)
          exact absurd (by rw [hrest.1]; exact List.nil_prefix) waiting
        | cons c tail =>
          rw [lstrip_append_of_cons stays, ← hrest, List.append_assoc, List.drop_left]
      have here : p.base.thinkEndToken <+: lstrip (p.headBuffer ++ piece) := ⟨rest, hrest⟩
      have step : p.parseStreamingIncrement piece =
          if rest = [] then (p.closed, .empty) else p.closed.deliver rest := by
        have after : (lstrip (p.headBuffer ++ piece)).drop p.base.thinkEndToken.length = rest := by
          rw [← hrest, List.drop_left]
        rw [← after]
        simp only [parseStreamingIncrement, pending, here, if_true]
        rfl
      by_cases empty : rest = []
      · refine ⟨pieces, by rw [whole, empty, List.nil_append], ?_⟩
        rw [stream, step, if_pos empty, ReasoningParseResult.empty_append]
      · refine ⟨rest :: pieces, by rw [whole, List.flatten_cons], ?_⟩
        rw [stream, step, if_neg empty]
        rfl
    · by_cases hold : lstrip (p.headBuffer ++ piece) = [] ∨
          lstrip (p.headBuffer ++ piece) <+: p.base.thinkEndToken
      · have step : p.parseStreamingIncrement piece =
            ({ p with headBuffer := p.headBuffer ++ piece }, .empty) := by
          simp [parseStreamingIncrement, pending, here, hold]
        obtain ⟨pieces', whole, same⟩ :=
          @ih { p with headBuffer := p.headBuffer ++ piece } pending here closer
        exact ⟨pieces', whole, by rw [stream, step, ReasoningParseResult.empty_append]; exact same⟩
      · -- The head starts the text that starts with the closing marker, so one starts the other.
        rw [not_or] at hold
        obtain ⟨c, tail, stays⟩ := List.exists_cons_of_ne_nil hold.1
        rw [lstrip_append_of_cons stays] at closer
        rcases List.prefix_or_prefix_of_prefix closer (List.prefix_append _ _) with h | h
        · exact absurd h here
        · exact absurd h hold.2

end

/-! ## The base parser of a turn -/

section
variable {p : BaseReasoningParser} {force streamReasoning : Bool} {pieces : List (List Char)}
  {text body current rest : List Char} {k : Nat}

theorem base_stream_reasoning (free : ¬ thinkStart <:+: pieces.flatten)
    (bounded : HoldBounded thinkEnd (some toolStart) pieces.flatten)
    (tight : CloseTight thinkEnd pieces.flatten) :
    (baseParser true streamReasoning).stream pieces =
      verbatim thinkEnd (some toolStart) pieces.flatten := by
  have reading : (baseParser true streamReasoning).Reading pieces.flatten :=
    { inside := rfl
      settled := .inr free
      bounded := bounded
      unclosed := fun occurs => absurd (List.infix_nil.mp occurs) marks_miniMaxM3.close_ne
      toolFirst := fun mark mem occurs => absurd (List.infix_nil.mp occurs)
        (marks_miniMaxM3.tool_solid mark mem).2 }
  have outcome : ThinkOutcome thinkEnd (some toolStart) pieces.flatten _ :=
    reading.stream marks_miniMaxM3
  exact outcome.eq_verbatim tight

theorem base_stream_opened (whole : pieces.flatten = thinkStart ++ body)
    (bounded : HoldBounded thinkEnd (some toolStart) body) (tight : CloseTight thinkEnd body) :
    (baseParser false streamReasoning).stream pieces =
      verbatim thinkEnd (some toolStart) body := by
  obtain ⟨before, after, r, front, outcome, same⟩ :=
    @BaseReasoningParser.stream_opening (baseParser false streamReasoning) pieces [] body
      marks_miniMaxM3 rfl
      (fun occurs => absurd (List.infix_nil.mp occurs) marks_miniMaxM3.start_ne) whole
      (fun d below => absurd below (by simp))
      (by
        rintro rest gone
        rw [List.suffix_nil.mp gone]
        exact bounded)
      (fun inside => absurd inside (by simp [baseParser, BaseReasoningParser.create]))
  obtain ⟨rfl, rfl⟩ := List.append_eq_nil_iff.mp front.symm
  rw [same, aside_nil, ReasoningParseResult.empty_append]
  exact outcome.eq_verbatim tight

/-- Some tool markers, one after the other. -/
def toolRow (k : Nat) : List Char := (List.replicate k toolStart).flatten

theorem toolRow_succ (k : Nat) : toolRow (k + 1) = toolStart ++ toolRow k := by
  rw [toolRow, List.replicate_succ, List.flatten_cons, toolRow]

theorem toolRow_succ' (k : Nat) : toolRow (k + 1) = toolRow k ++ toolStart := by
  rw [toolRow, List.replicate_succ', List.flatten_append, toolRow]
  simp

theorem toolRow_add (j k : Nat) : toolRow (j + k) = toolRow j ++ toolRow k := by
  rw [toolRow, List.replicate_add, List.flatten_append, toolRow, toolRow]

theorem clearBelow_toolRow {mark : List Char}
    (apart : ∀ d < toolStart.length, ¬ toolStart.drop d <+: mark ∧ ¬ mark <+: toolStart.drop d)
    (k : Nat) (text : List Char) : ClearBelow mark (toolRow k).length (toolRow k ++ text) := by
  induction k with
  | zero => exact fun d below => absurd below (by simp [toolRow])
  | succ k ih =>
    rw [toolRow_succ, List.length_append, List.append_assoc]
    refine ClearBelow.append_left (fun d below occurs => ?_) ih
    rw [List.drop_append_of_le_length (by omega)] at occurs
    rcases List.prefix_or_prefix_of_prefix occurs (List.prefix_append _ _) with h | h
    · exact (apart d below).2 h
    · exact (apart d below).1 h

theorem apart_thinkStart : ∀ d < toolStart.length,
    ¬ toolStart.drop d <+: thinkStart ∧ ¬ thinkStart <+: toolStart.drop d := by decide

theorem apart_thinkEnd : ∀ d < toolStart.length,
    ¬ toolStart.drop d <+: thinkEnd ∧ ¬ thinkEnd <+: toolStart.drop d := by decide

theorem toolStart_unbordered : ∀ d < toolStart.length, 0 < d → ¬ toolStart.drop d <+: toolStart := by
  decide

theorem toolRow_begins (start : current <+: toolRow k ++ thinkStart ++ rest)
    (short : current.length < (toolRow k ++ thinkStart).length) :
    ∃ j part tok, current = toolRow j ++ part ∧ j ≤ k ∧ tok ∈ [thinkStart, toolStart] ∧
      part <+: tok ∧ part.length < tok.length := by
  induction k generalizing current with
  | zero =>
    refine ⟨0, current, thinkStart, rfl, le_rfl, by simp, ?_, short⟩
    exact List.prefix_of_prefix_length_le start (List.prefix_append _ _) short.le
  | succ k ih =>
    rw [toolRow_succ, List.append_assoc, List.append_assoc] at start
    by_cases within : current.length < toolStart.length
    · refine ⟨0, current, toolStart, rfl, Nat.zero_le _, by simp, ?_, within⟩
      exact List.prefix_of_prefix_length_le start (List.prefix_append _ _) within.le
    · obtain ⟨current', rfl⟩ : toolStart <+: current :=
        List.prefix_of_prefix_length_le (List.prefix_append _ _) start (by omega)
      rw [List.prefix_append_right_inj, ← List.append_assoc] at start
      obtain ⟨j, part, tok, rfl, most, mem, starts, proper⟩ := ih start (by
        rw [toolRow_succ] at short
        simp only [List.length_append] at short ⊢
        omega)
      exact ⟨j + 1, part, tok, by rw [toolRow_succ, List.append_assoc], by omega, mem, starts,
        proper⟩

theorem partialLen_toolRow {j : Nat} {part tok : List Char} (mem : tok ∈ [thinkStart, toolStart])
    (starts : part <+: tok) (proper : part.length < tok.length) :
    partialLen [thinkEnd, thinkStart, toolStart] (toolRow j ++ part) = part.length := by
  refine le_antisymm ?_ ?_
  · cases j with
    | zero => exact (partialLen_le_length _ _).trans (by simp [toolRow])
    | succ j =>
      rw [toolRow_succ']
      exact partialLen_le_of_apart (by decide) (by decide) _ _
  · refine @le_partialLen _ _ _ tok _ _ (List.mem_cons_of_mem _ mem) (by omega) (by simp) ?_
    rw [List.prefix_iff_eq_take.mp starts, List.length_take]
    rw [Nat.min_eq_left (by omega)]
    exact List.suffix_append _ _

theorem base_stream_toolRow (outside : p.inReasoning = false) (tracked : p.strippedThinkStart = false)
    (start : p.thinkStartToken = thinkStart) (close : p.thinkEndToken = thinkEnd)
    (tool : p.toolStartToken = some toolStart) (waiting : ¬ thinkStart <:+: p.buffer)
    (whole : p.buffer ++ pieces.flatten = toolRow k ++ thinkStart ++ body)
    (held : toolStart <+: body) (open_ : ¬ thinkEnd <:+: body) :
    p.stream pieces = ⟨[], toolRow k ++ body⟩ := by
  have clear := clearBelow_toolRow apart_thinkStart k (thinkStart ++ body)
  induction pieces generalizing p k with
  | nil =>
    rw [List.flatten_nil, List.append_nil] at whole
    exact absurd ⟨_, _, whole.symm⟩ waiting
  | cons piece pieces ih =>
    rw [List.flatten_cons, ← List.append_assoc] at whole
    rw [BaseReasoningParser.stream, BaseReasoningParser.parseStreamingIncrement, start]
    rw [← List.append_assoc] at clear
    cases split : splitSub thinkStart (p.buffer ++ piece) with
    | some found =>
      obtain ⟨left, right⟩ := found
      have full := splitSub_append marks_miniMaxM3.start_ne split pieces.flatten
      rw [whole, splitSub_of_clear clear] at full
      cases Option.some.inj full
      have complete : thinkStart <:+: p.buffer ++ piece :=
        ⟨_, _, (splitSub_spec split).1.symm⟩
      have removed : removeFirst thinkStart (p.buffer ++ piece) = toolRow k ++ right := by
        simp only [removeFirst, split]
      have absent : ¬ thinkEnd <:+: toolRow k ++ right ++ pieces.flatten := by
        rw [List.append_assoc,
          infix_append_iff_of_clear (clearBelow_toolRow apart_thinkEnd k _)]
        exact open_
      have cut : cutSub toolStart (toolRow k ++ right ++ pieces.flatten) =
          some ([], toolRow k ++ right ++ pieces.flatten) := by
        refine @cutSub_of_clear _ _ toolStart [] _ ?_ (fun d below => absurd below (by simp))
        change toolStart <+: toolRow k ++ right ++ pieces.flatten
        rw [List.append_assoc]
        cases k with
        | zero => exact held
        | succ k =>
          rw [toolRow_succ, List.append_assoc]
          exact List.prefix_append _ _
      have outcome := @BaseReasoningParser.stream_route
        { p with strippedThinkStart := true, inReasoning := true } (toolRow k ++ right) pieces
        (by
          simp only [BaseReasoningParser.Marked, start, close, tool]
          exact marks_miniMaxM3) rfl (.inl rfl)
        (by
          simp only [close, tool]
          exact fun reasoning rest found => absurd found (by rw [splitSub_eq_none absent]; simp))
      rw [close, tool] at outcome
      have same := outcome.eq_verbatim
        (fun reasoning rest found => absurd found (by rw [splitSub_eq_none absent]; simp))
      rw [verbatim_of_cut absent (by simpa using cut)] at same
      simp only [start] at same
      simpa only [tracked, complete, removed, close, tool, and_self, if_true] using same
    | none =>
      have free := splitSub_eq_none_iff.mp split
      have starts : p.buffer ++ piece <+: toolRow k ++ thinkStart ++ body :=
        whole ▸ List.prefix_append _ _
      have short : (p.buffer ++ piece).length < (toolRow k ++ thinkStart).length := by
        by_contra longer
        obtain ⟨rest, hrest⟩ := List.prefix_of_prefix_length_le (List.prefix_append _ body) starts
          (by omega)
        exact free ⟨toolRow k, rest, hrest⟩
      obtain ⟨j, part, tok, current, most, mem, startsTok, proper⟩ := toolRow_begins starts short
      have partials : p.splitTrailingPartial (toolRow j ++ part) = (toolRow j, part) := by
        simp only [BaseReasoningParser.splitTrailingPartial, tracked, start, close, tool,
          splitPartial, Bool.false_eq_true, if_false, Option.toList_some, List.singleton_append]
        rw [partialLen_toolRow mem startsTok proper]
        simp
      have step : p.route (p.buffer ++ piece) = ({ p with buffer := part }, ⟨[], toolRow j⟩) := by
        rw [current]
        simp [BaseReasoningParser.route, outside, partials]
      obtain ⟨i, rfl⟩ := Nat.exists_eq_add_of_le most
      have later : part ++ pieces.flatten = toolRow i ++ thinkStart ++ body := by
        rw [current, toolRow_add, List.append_assoc, List.append_assoc, List.append_assoc,
          List.append_cancel_left_eq] at whole
        rw [whole, List.append_assoc]
      rw [if_neg (fun h => free h.2), step]
      rw [@ih { p with buffer := part } i outside tracked start close tool
        (fun occurs => free (occurs.trans (current ▸ (List.suffix_append _ _).isInfix))) later
        (clearBelow_toolRow apart_thinkStart i _)]
      rw [toolRow_add, ReasoningParseResult.mk_append, List.append_assoc]
      rfl

end

end MiniMaxM3ReasoningParser

end FreeSwarm.Server
