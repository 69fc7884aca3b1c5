import FreeSwarm.Foundation.Blanks

/-!
# Reasoning and content

A reasoning parser separates a completion into its reasoning and the rest, at once or while it
arrives. `BaseReasoningParser` is the parser for an opening and a closing marker; with a tool
marker, a tool block also ends the reasoning. The families differ in their markers only.
-/

namespace FreeSwarm.Server

open FreeSwarm.Foundation

structure ReasoningParseResult where
  reasoningText : List Char
  normalText : List Char
  deriving DecidableEq, Repr

/-- Results that arrive one after the other. -/
instance : Append ReasoningParseResult where
  append r r' := ⟨r.reasoningText ++ r'.reasoningText, r.normalText ++ r'.normalText⟩

@[simp] theorem ReasoningParseResult.reasoningText_append (r r' : ReasoningParseResult) :
    (r ++ r').reasoningText = r.reasoningText ++ r'.reasoningText := rfl

@[simp] theorem ReasoningParseResult.normalText_append (r r' : ReasoningParseResult) :
    (r ++ r').normalText = r.normalText ++ r'.normalText := rfl

@[simp] theorem ReasoningParseResult.mk_append (a b a' b' : List Char) :
    (⟨a, b⟩ ++ ⟨a', b'⟩ : ReasoningParseResult) = ⟨a ++ a', b ++ b'⟩ := rfl

/-- Nothing. -/
def ReasoningParseResult.empty : ReasoningParseResult := ⟨[], []⟩

@[simp] theorem ReasoningParseResult.empty_append (r : ReasoningParseResult) :
    .empty ++ r = r := rfl

theorem ReasoningParseResult.append_assoc (r₁ r₂ r₃ : ReasoningParseResult) :
    r₁ ++ r₂ ++ r₃ = r₁ ++ (r₂ ++ r₃) := by
  change ReasoningParseResult.mk _ _ = ReasoningParseResult.mk _ _
  simp

def ReasoningParseResult.SameTrimmed (r r' : ReasoningParseResult) : Prop :=
  strip r.reasoningText = strip r'.reasoningText ∧ strip r.normalText = strip r'.normalText

instance (r r' : ReasoningParseResult) : Decidable (r.SameTrimmed r') := by
  unfold ReasoningParseResult.SameTrimmed
  infer_instance

/-- The parser for an opening and a closing marker. -/
structure BaseReasoningParser where
  thinkStartToken : List Char
  thinkEndToken : List Char
  toolStartToken : Option (List Char)
  forceReasoning : Bool
  streamReasoning : Bool
  inReasoning : Bool
  buffer : List Char
  strippedThinkStart : Bool
  deriving DecidableEq, Repr

namespace BaseReasoningParser

/-- A parser that has read nothing. -/
def create (thinkStartToken thinkEndToken : List Char) (forceReasoning streamReasoning : Bool)
    (toolStartToken : Option (List Char)) : BaseReasoningParser :=
  { thinkStartToken := thinkStartToken, thinkEndToken := thinkEndToken
    toolStartToken := toolStartToken, forceReasoning := forceReasoning
    streamReasoning := streamReasoning, inReasoning := forceReasoning, buffer := []
    strippedThinkStart := false }

/-- The most characters of a suspected tool block that are held for a later closing marker. -/
def toolHoldMax : Nat := 512

/-- The two parts of a completion without its opening markers. -/
def divide (p : BaseReasoningParser) (processedText : List Char) : ReasoningParseResult :=
  match splitSub p.thinkEndToken processedText with
  | some (reasoning, normal) => ⟨reasoning, strip normal⟩
  | none =>
    match p.toolStartToken.bind (cutSub · processedText) with
    | some (reasoning, block) => ⟨strip reasoning, block⟩
    | none => ⟨processedText, []⟩

/-- One-shot parse of a complete completion. -/
def detectAndParse (p : BaseReasoningParser) (text : List Char) : ReasoningParseResult :=
  if p.inReasoning = true ∨ p.thinkStartToken <:+: text then
    p.divide (strip (removeAll p.thinkStartToken text))
  else ⟨[], text⟩

/-- Split off the longest end of the text that starts a tracked marker. -/
def splitTrailingPartial (p : BaseReasoningParser) (text : List Char) : List Char × List Char :=
  splitPartial (p.thinkEndToken ::
    ((if p.strippedThinkStart then [] else [p.thinkStartToken]) ++ p.toolStartToken.toList)) text

/-- The increment for a text whose opening marker is taken out. -/
def route (p : BaseReasoningParser) (currentText : List Char) :
    BaseReasoningParser × ReasoningParseResult :=
  let partials := p.splitTrailingPartial currentText
  if p.inReasoning then
    match splitSub p.thinkEndToken currentText with
    | some (reasoning, rest) =>
      ({ p with buffer := [], inReasoning := false }, ⟨rstrip reasoning, rest⟩)
    | none =>
      match p.toolStartToken.bind (cutSub · currentText) with
      | some (reasoning, block) =>
        if toolHoldMax < block.length then
          ({ p with buffer := [], inReasoning := false }, ⟨reasoning, block⟩)
        else ({ p with buffer := block }, ⟨reasoning, []⟩)
      | none =>
        if p.streamReasoning then ({ p with buffer := partials.2 }, ⟨partials.1, []⟩)
        else ({ p with buffer := currentText }, .empty)
  else ({ p with buffer := partials.2 }, ⟨[], partials.1⟩)

/-- The increment for the next piece of a completion. -/
def parseStreamingIncrement (p : BaseReasoningParser) (newText : List Char) :
    BaseReasoningParser × ReasoningParseResult :=
  let currentText := p.buffer ++ newText
  if p.strippedThinkStart = false ∧ p.thinkStartToken <:+: currentText then
    { p with
      strippedThinkStart := true
      inReasoning := true }.route (removeFirst p.thinkStartToken currentText)
  else p.route currentText

/-- What is left at the end of the stream. -/
def flush (p : BaseReasoningParser) : BaseReasoningParser × ReasoningParseResult :=
  if p.buffer = [] then (p, .empty)
  else if ∃ tool ∈ p.toolStartToken, tool <+: lstrip p.buffer then
    ({ p with buffer := [], inReasoning := false }, ⟨[], p.buffer⟩)
  else if p.inReasoning then ({ p with buffer := [] }, ⟨p.buffer, []⟩)
  else ({ p with buffer := [] }, ⟨[], p.buffer⟩)

/-- What a stream of pieces gives together, its end included. -/
def stream (p : BaseReasoningParser) : List (List Char) → ReasoningParseResult
  | [] => p.flush.2
  | piece :: pieces =>
    (p.parseStreamingIncrement piece).2 ++ (p.parseStreamingIncrement piece).1.stream pieces

end BaseReasoningParser

/-- The opening marker of the think families. -/
def thinkStartToken : List Char := "<think>".toList

/-- The closing marker of the think families. -/
def thinkEndToken : List Char := "</think>".toList

/-- The beginning of every structural marker of a DSML tool block. -/
def dsmlMarker : List Char := "<｜DSML｜".toList

def deepSeekV32ReasoningParser (forceReasoning streamReasoning : Bool) : BaseReasoningParser :=
  .create thinkStartToken thinkEndToken forceReasoning streamReasoning (some dsmlMarker)

/-- The parser of the families without a tool marker. -/
def thinkReasoningParser (forceReasoning streamReasoning : Bool) : BaseReasoningParser :=
  .create thinkStartToken thinkEndToken forceReasoning streamReasoning none

end FreeSwarm.Server
