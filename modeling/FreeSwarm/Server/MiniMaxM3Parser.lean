import FreeSwarm.Server.ReasoningStream

/-!
# MiniMax M3

The reasoning parser of MiniMax M3 streams as the base parser does, after a first look at the head
of the completion: a closing marker there means that this turn has no reasoning. Its one-shot parse
is its own, verbatim and by position.
-/

namespace FreeSwarm.Server

open FreeSwarm.Foundation

structure MiniMaxM3ReasoningParser where
  base : BaseReasoningParser
  leadingCloserPending : Bool
  headBuffer : List Char
  deriving DecidableEq, Repr

namespace MiniMaxM3ReasoningParser

/-- The opening marker. -/
def thinkStart : List Char := "<mm:think>".toList

/-- The closing marker. -/
def thinkEnd : List Char := "</mm:think>".toList

/-- The marker that opens a tool block. -/
def toolStart : List Char := "]<]minimax[>[<tool_call>".toList

def create (forceReasoning streamReasoning : Bool) : MiniMaxM3ReasoningParser :=
  { base := .create thinkStart thinkEnd forceReasoning streamReasoning (some toolStart)
    leadingCloserPending := !forceReasoning
    headBuffer := [] }

/-- One-shot parse: reasoning starts at the first opening marker, the text before it is content, and
nothing is trimmed. -/
def detectAndParse (p : MiniMaxM3ReasoningParser) (text : List Char) : ReasoningParseResult :=
  if p.base.forceReasoning then
    match splitSub p.base.thinkEndToken text with
    | some (reasoning, rest) => ⟨reasoning, rest⟩
    | none =>
      match p.base.toolStartToken.bind (cutSub · text) with
      | some (reasoning, block) => ⟨reasoning, block⟩
      | none => ⟨text, []⟩
  else
    let head := lstrip text
    if p.base.thinkEndToken <+: head then ⟨[], head.drop p.base.thinkEndToken.length⟩
    else
      match splitSub p.base.thinkStartToken text with
      | none => ⟨[], text⟩
      | some (before, body) =>
        match splitSub p.base.thinkEndToken body with
        | some (reasoning, rest) => ⟨reasoning, before ++ rest⟩
        | none =>
          match p.base.toolStartToken.bind (cutSub · body) with
          | some (reasoning, block) => ⟨reasoning, before ++ block⟩
          | none => ⟨body, []⟩

/-- The increment of the base parser for the next piece. -/
def deliver (p : MiniMaxM3ReasoningParser) (newText : List Char) :
    MiniMaxM3ReasoningParser × ReasoningParseResult :=
  let (base, result) := p.base.parseStreamingIncrement newText
  ({ p with base := base }, result)

/-- The increment for the next piece of a completion. -/
def parseStreamingIncrement (p : MiniMaxM3ReasoningParser) (newText : List Char) :
    MiniMaxM3ReasoningParser × ReasoningParseResult :=
  if p.leadingCloserPending then
    let headBuffer := p.headBuffer ++ newText
    let head := lstrip headBuffer
    if p.base.thinkEndToken <+: head then
      let p : MiniMaxM3ReasoningParser :=
        { base := { p.base with inReasoning := false }, leadingCloserPending := false
          headBuffer := [] }
      let rest := head.drop p.base.thinkEndToken.length
      if rest = [] then (p, .empty) else p.deliver rest
    else if head = [] ∨ head <+: p.base.thinkEndToken then
      ({ p with headBuffer := headBuffer }, .empty)
    else { p with leadingCloserPending := false, headBuffer := [] }.deliver headBuffer
  else p.deliver newText

/-- What is left at the end of the stream. -/
def flush (p : MiniMaxM3ReasoningParser) : MiniMaxM3ReasoningParser × ReasoningParseResult :=
  if p.leadingCloserPending = true ∧ p.headBuffer ≠ [] then
    let (p, first) :=
      { p with leadingCloserPending := false, headBuffer := [] }.deliver p.headBuffer
    let (base, rest) := p.base.flush
    ({ p with base := base }, first ++ rest)
  else
    let (base, rest) := p.base.flush
    ({ p with base := base }, rest)

/-- What a stream of pieces gives together, its end included. -/
def stream (p : MiniMaxM3ReasoningParser) : List (List Char) → ReasoningParseResult
  | [] => p.flush.2
  | piece :: pieces =>
    (p.parseStreamingIncrement piece).2 ++ (p.parseStreamingIncrement piece).1.stream pieces

end MiniMaxM3ReasoningParser

end FreeSwarm.Server
