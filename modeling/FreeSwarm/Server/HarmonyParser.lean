import FreeSwarm.Foundation.Earliest
import FreeSwarm.Server.ReasoningParser

/-!
# Harmony

The reasoning parser of gpt-oss. A completion is a row of channel segments, each a header and a body
up to the next boundary marker. The analysis channel is reasoning, a tool call on the commentary
channel is kept verbatim, anything else is content. A stream scans all it has so far again for each
piece and gives away what is new.
-/

namespace FreeSwarm.Server

open FreeSwarm.Foundation

/-- The marker before a segment's header. -/
def harmonyChannel : List Char := "<|channel|>".toList

/-- The marker between a segment's header and its body. -/
def harmonyMessage : List Char := "<|message|>".toList

/-- The markers that bound a segment's body. -/
def harmonyBoundaryTokens : List (List Char) :=
  ["<|end|>".toList, "<|return|>".toList, "<|call|>".toList, "<|start|>".toList,
    "<|channel|>".toList]

/-- Every control marker. -/
def harmonyAllTokens : List (List Char) :=
  [harmonyChannel, harmonyMessage] ++ harmonyBoundaryTokens

def closingBoundaryTokens : List (List Char) :=
  ["<|end|>".toList, "<|return|>".toList, "<|call|>".toList]

/-- The first word of a segment's header. -/
def channelOf (header : List Char) : List Char := (lstrip header).takeWhile (!isSpace ·)

def isTool (header : List Char) : Bool :=
  channelOf header = "commentary".toList && decide ("to=functions".toList <:+: header)

/-- Where a segment's body ends, and at which marker; at the end of the text when there is none
yet. -/
def segmentEnd (body : List Char) : Nat × Option (List Char) :=
  match earliest harmonyBoundaryTokens body with
  | some (pos, tok) => (pos, some tok)
  | none => (body.length, none)

def segmentResult (holdPartial : Bool) (header bodyText : List Char) (stop : Nat)
    (matched : Option (List Char)) : ReasoningParseResult :=
  if isTool header then
    let sliceEnd :=
      match matched with
      | some tok => if tok ∈ closingBoundaryTokens then stop + tok.length else stop
      | none => stop
    ⟨[], harmonyChannel ++ header ++ harmonyMessage ++ bodyText.take sliceEnd⟩
  else
    let body := bodyText.take stop
    let body :=
      if matched = none ∧ holdPartial = true then (splitPartial harmonyAllTokens body).1 else body
    if channelOf header = "analysis".toList then ⟨body, []⟩ else ⟨[], body⟩

/-- The scan of a text from one of its positions on. Each segment takes up some of the text, so that
the length of the text bounds their number. -/
def scanFrom (holdPartial : Bool) : Nat → List Char → ReasoningParseResult
  | 0, _ => .empty
  | bound + 1, text =>
    match splitSub harmonyChannel text with
    | none => .empty
    | some (_, afterChannel) =>
      match splitSub harmonyMessage afterChannel with
      | none => .empty
      | some (header, bodyText) =>
        let (stop, matched) := segmentEnd bodyText
        let result := segmentResult holdPartial header bodyText stop matched
        match matched with
        | none => result
        | some _ => result ++ scanFrom holdPartial bound (bodyText.drop stop)

def scan (holdPartial : Bool) (text : List Char) : ReasoningParseResult :=
  scanFrom holdPartial text.length text

structure GptOssHarmonyReasoningParser where
  buffer : List Char
  emittedReasoning : Nat
  emittedContent : Nat
  deriving DecidableEq, Repr

namespace GptOssHarmonyReasoningParser

def create : GptOssHarmonyReasoningParser := ⟨[], 0, 0⟩

/-- One-shot parse of a complete completion. -/
def detectAndParse (text : List Char) : ReasoningParseResult :=
  if harmonyChannel <:+: text then
    ⟨strip (scan false text).reasoningText, strip (scan false text).normalText⟩
  else ⟨[], text⟩

/-- What a scan of the buffer has beyond what was given away. -/
def emit (p : GptOssHarmonyReasoningParser) (holdPartial : Bool) :
    GptOssHarmonyReasoningParser × ReasoningParseResult :=
  let scanned := scan holdPartial p.buffer
  ({ p with
      emittedReasoning := scanned.reasoningText.length
      emittedContent := scanned.normalText.length },
    ⟨scanned.reasoningText.drop p.emittedReasoning, scanned.normalText.drop p.emittedContent⟩)

/-- The increment for the next piece of a completion. -/
def parseStreamingIncrement (p : GptOssHarmonyReasoningParser) (newText : List Char) :
    GptOssHarmonyReasoningParser × ReasoningParseResult :=
  { p with buffer := p.buffer ++ newText }.emit true

/-- What is left at the end of the stream. -/
def flush (p : GptOssHarmonyReasoningParser) :
    GptOssHarmonyReasoningParser × ReasoningParseResult :=
  p.emit false

/-- What a stream of pieces gives together, its end included. -/
def stream (p : GptOssHarmonyReasoningParser) : List (List Char) → ReasoningParseResult
  | [] => p.flush.2
  | piece :: pieces =>
    (p.parseStreamingIncrement piece).2 ++ (p.parseStreamingIncrement piece).1.stream pieces

end GptOssHarmonyReasoningParser

end FreeSwarm.Server
