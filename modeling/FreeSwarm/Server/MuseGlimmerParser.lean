import FreeSwarm.Foundation.Earliest
import FreeSwarm.Server.ReasoningParser

/-!
# Muse Glimmer

The reasoning parser of Muse Glimmer. A turn is a row of channel segments. A segment opens with a
full header, `<|start|>` up to `<|message|>`, or with a headerless switch, `to=` and a name right
before `<|message|>`; it goes on to a closing marker or to the next segment. The channel to `self`
is reasoning, the one to `user` content, and any other is a tool call that is kept with its header.
A stream gives away what is decided and keeps the rest in its buffer.
-/

namespace FreeSwarm.Server

open FreeSwarm.Foundation

/-- The marker before a full header. -/
def atemStart : List Char := "<|start|>".toList

/-- The marker behind a header. -/
def atemMessage : List Char := "<|message|>".toList

def atemClosingTokens : List (List Char) :=
  ["<|eot|>".toList, "<|eom|>".toList, "<|end_of_text|>".toList]

/-- Every control marker. -/
def atemAllTokens : List (List Char) := [atemStart, atemMessage] ++ atemClosingTokens

/-- What stands before a recipient's name. -/
def recipientMark : List Char := "to=".toList

def recipientMax : Nat := 64

/-- How far back a headerless switch is looked for when text is held back. -/
def atemHoldWindow : Nat := 96

def atemHeaderSpan : Nat := 128

def nameChar (c : Char) : Bool := !isSpace c && c ≠ '<'

/-- The recipient of a headerless switch that starts the text. -/
def inlineHere (text : List Char) : Option (List Char) :=
  if recipientMark <+: text then
    let rest := text.drop recipientMark.length
    let name := rest.takeWhile nameChar
    if name ≠ [] ∧ name.length ≤ recipientMax ∧ atemMessage <+: rest.drop name.length then some name
    else none
  else none

/-- The position and the recipient of the first headerless switch in a text. -/
def inlineHeader : List Char → Option (Nat × List Char)
  | [] => none
  | c :: text =>
    match inlineHere (c :: text) with
    | some name => some (0, name)
    | none => (inlineHeader text).map fun (pos, name) => (pos + 1, name)

/-- How long a headerless switch with this recipient is. -/
def inlineLength (name : List Char) : Nat :=
  recipientMark.length + name.length + atemMessage.length

/-- The recipient that a full header names. -/
def recipientOf : List Char → Option (List Char)
  | [] => none
  | c :: header =>
    let name := ((c :: header).drop recipientMark.length).takeWhile nameChar
    if recipientMark <+: c :: header ∧ name ≠ [] then some (name.take recipientMax)
    else recipientOf header

def atemMarkerInside (part : List Char) : Prop :=
  ∃ tok ∈ atemAllTokens, tok ≠ atemMessage ∧ tok <:+: part

instance (part : List Char) : Decidable (atemMarkerInside part) :=
  inferInstanceAs (Decidable (∃ tok ∈ atemAllTokens, tok ≠ atemMessage ∧ tok <:+: part))

/-- The text from the last occurrence of a pattern on. -/
def lastTail (sub : List Char) : List Char → Option (List Char)
  | [] => none
  | c :: text =>
    match lastTail sub text with
    | some tail => some tail
    | none => if sub <+: c :: text then some (c :: text) else none

/-- The text that starts with `to=` may still grow into a headerless switch. -/
def switchPending (tail : List Char) : Prop :=
  let rest := tail.drop recipientMark.length
  let name := (rest.takeWhile nameChar).take recipientMax
  name = rest ∨ (name ≠ [] ∧ rest.drop name.length <+: atemMessage)

instance (tail : List Char) : Decidable (switchPending tail) := by
  unfold switchPending
  infer_instance

/-- How much of the end of a text may still grow into a marker or a headerless switch. -/
def atemHoldLen (text : List Char) : Nat :=
  let best := partialLen atemAllTokens text
  let window := text.drop (text.length - atemHoldWindow)
  let best :=
    match lastTail recipientMark window with
    | some tail => if switchPending tail then max best tail.length else best
    | none => best
  ["t".toList, "to".toList].foldl
    (fun best start => if best < start.length ∧ start <:+ text then start.length else best) best

/-- Whether the parser is inside a segment or between segments. -/
inductive AtemMode
  | body
  | seek
  deriving DecidableEq, Repr

structure MuseGlimmerReasoningParser where
  headerOpen : Bool
  buffer : List Char
  syntheticOpen : Bool
  mode : AtemMode
  recipient : List Char
  deriving DecidableEq, Repr

namespace MuseGlimmerReasoningParser

def create (headerOpen : Bool) : MuseGlimmerReasoningParser :=
  { headerOpen := headerOpen, buffer := if headerOpen then atemStart else []
    syntheticOpen := headerOpen, mode := .seek, recipient := "user".toList }

/-- The recipient of the reasoning. -/
def selfName : List Char := "self".toList

/-- The recipient of the content. -/
def userName : List Char := "user".toList

def isToolName (recipient : List Char) : Prop := recipient ∉ [selfName, userName]

instance (recipient : List Char) : Decidable (isToolName recipient) :=
  inferInstanceAs (Decidable (recipient ∉ [selfName, userName]))

def emit (recipient piece : List Char) : ReasoningParseResult :=
  if recipient = selfName then ⟨piece, []⟩ else ⟨[], piece⟩

/-- A text without closing markers. -/
def dropClosers (piece : List Char) : List Char :=
  atemClosingTokens.foldl (fun piece tok => removeAll tok piece) piece

def emitSeek (piece : List Char) : ReasoningParseResult := ⟨[], dropClosers piece⟩

def beginBody (p : MuseGlimmerReasoningParser) (recipient headerText : List Char) :
    MuseGlimmerReasoningParser × ReasoningParseResult :=
  ({ p with recipient := recipient, mode := .body },
    if isToolName recipient then emit recipient headerText else .empty)

/-- What ends a segment. -/
inductive BodyEnd
  | closer (tok : List Char)
  | start
  | inline (name : List Char)
  deriving DecidableEq, Repr

def segmentBodyEnd (buf : List Char) : Nat × Option BodyEnd :=
  let best := atemClosingTokens.foldl (fun (best : Nat × Option BodyEnd) tok =>
    match findSub tok buf with
    | some pos => if pos < best.1 then (pos, some (.closer tok)) else best
    | none => best) (buf.length, none)
  let best :=
    match findSub atemStart buf with
    | some pos => if pos < best.1 then (pos, some .start) else best
    | none => best
  match inlineHeader buf with
  | some (pos, name) => if pos < best.1 then (pos, some (.inline name)) else best
  | none => best

/-- One round of a drain: the parser behind it, what it gives, and whether another round follows. -/
structure Round where
  next : MuseGlimmerReasoningParser
  out : ReasoningParseResult
  again : Bool
  deriving DecidableEq, Repr

/-- A marker at position `s` that opens no header is content, unless it stands for the prompt's. -/
def release (p : MuseGlimmerReasoningParser) (s : Nat) : Round :=
  { next := { p with syntheticOpen := false, buffer := p.buffer.drop (s + atemStart.length) }
    out := emitSeek (p.buffer.take s) ++
      (if p.syntheticOpen then .empty else ⟨[], atemStart⟩)
    again := true }

/-- A round between segments at a marker that may open a full header. -/
def startRound (p : MuseGlimmerReasoningParser) (final : Bool) (s : Nat) : Round :=
  let candidate := p.buffer.drop (s + atemStart.length)
  let msg := findSub atemMessage candidate
  if atemMarkerInside (candidate.take (msg.getD candidate.length)) then p.release s
  else
    match msg with
    | some span =>
      if atemHeaderSpan < span then p.release s
      else
        let recipient := (recipientOf (candidate.take span)).getD userName
        let headerText := atemStart ++ candidate.take (span + atemMessage.length)
        let opened := { p with
          buffer := candidate.drop (span + atemMessage.length)
          syntheticOpen := false }.beginBody recipient headerText
        { next := opened.1, out := emitSeek (p.buffer.take s) ++ opened.2, again := true }
    | none =>
      if atemHeaderSpan + atemMessage.length < candidate.length then p.release s
      else if final then
        { next := { p with syntheticOpen := false, buffer := [] }
          out := emitSeek (p.buffer.take s) ++ emitSeek candidate
          again := false }
      else
        { next := { p with buffer := p.buffer.drop s }
          out := emitSeek (p.buffer.take s)
          again := false }

/-- A headerless switch at a position of the buffer, behind what is given before it. -/
def switchRound (p : MuseGlimmerReasoningParser) (given : ReasoningParseResult) (pos : Nat)
    (name : List Char) : Round :=
  let opened := { p with buffer := p.buffer.drop (pos + inlineLength name) }.beginBody name
    ((p.buffer.drop pos).take (inlineLength name))
  { next := opened.1, out := given ++ opened.2, again := true }

/-- How much of the buffer is held back. -/
def holdLen (p : MuseGlimmerReasoningParser) (final : Bool) : Nat :=
  if final then 0 else atemHoldLen p.buffer

/-- A round without anything decided: all but what is held back is given away. -/
def waitRound (p : MuseGlimmerReasoningParser) (final : Bool)
    (give : List Char → ReasoningParseResult) : Round :=
  let cut := p.buffer.length - p.holdLen final
  { next := { p with buffer := p.buffer.drop cut }, out := give (p.buffer.take cut), again := false }

def seekRound (p : MuseGlimmerReasoningParser) (final : Bool) : Round :=
  let s := findSub atemStart p.buffer
  match inlineHeader p.buffer, s with
  | some (pos, name), none => p.switchRound (emitSeek (p.buffer.take pos)) pos name
  | some (pos, name), some s =>
    if pos < s then p.switchRound (emitSeek (p.buffer.take pos)) pos name else p.startRound final s
  | none, some s => p.startRound final s
  | none, none => p.waitRound final emitSeek

def bodyRound (p : MuseGlimmerReasoningParser) (final : Bool) : Round :=
  let (stop, kind) := segmentBodyEnd p.buffer
  let body := p.buffer.take stop
  match kind with
  | none => p.waitRound final (emit p.recipient)
  | some (.closer tok) =>
    { next := { p with buffer := p.buffer.drop (stop + tok.length), mode := .seek }
      out := emit p.recipient (if isToolName p.recipient then body ++ tok else body)
      again := true }
  | some .start =>
    { next := { p with buffer := p.buffer.drop stop, mode := .seek }
      out := emit p.recipient (if isToolName p.recipient then body ++ "<|eom|>".toList else body)
      again := true }
  | some (.inline name) =>
    p.switchRound
      (emit p.recipient (if isToolName p.recipient then body ++ "<|eom|>".toList else body)) stop name

def round (p : MuseGlimmerReasoningParser) (final : Bool) : Round :=
  match p.mode with
  | .seek => p.seekRound final
  | .body => p.bodyRound final

def drainLoop (final : Bool) :
    Nat → MuseGlimmerReasoningParser → Option (MuseGlimmerReasoningParser × ReasoningParseResult)
  | 0, _ => none
  | rounds + 1, p =>
    if p.buffer = [] then some (p, .empty)
    else
      let r := p.round final
      if r.again then (drainLoop final rounds r.next).map fun (q, out) => (q, r.out ++ out)
      else some (r.next, r.out)

/-- More rounds than a drain ever takes. -/
def roundBound (p : MuseGlimmerReasoningParser) : Nat :=
  2 * p.buffer.length + (if p.mode = .body then 1 else 0) + 1

def drain (p : MuseGlimmerReasoningParser) (final : Bool) :
    MuseGlimmerReasoningParser × ReasoningParseResult :=
  (drainLoop final p.roundBound p).getD (p, .empty)

/-- The increment for the next piece of a completion. -/
def parseStreamingIncrement (p : MuseGlimmerReasoningParser) (newText : List Char) :
    MuseGlimmerReasoningParser × ReasoningParseResult :=
  { p with buffer := p.buffer ++ newText }.drain false

/-- What is left at the end of the stream. -/
def flush (p : MuseGlimmerReasoningParser) : MuseGlimmerReasoningParser × ReasoningParseResult :=
  p.drain true

/-- What a stream of pieces gives together, its end included. -/
def stream (p : MuseGlimmerReasoningParser) : List (List Char) → ReasoningParseResult
  | [] => p.flush.2
  | piece :: pieces =>
    (p.parseStreamingIncrement piece).2 ++ (p.parseStreamingIncrement piece).1.stream pieces

/-- One-shot parse of a complete completion. -/
def detectAndParse (p : MuseGlimmerReasoningParser) (text : List Char) : ReasoningParseResult :=
  if ∃ tok ∈ atemAllTokens, tok <:+: text then
    let first := (create p.headerOpen).parseStreamingIncrement text
    let rest := first.1.flush
    ⟨strip (first.2.reasoningText ++ rest.2.reasoningText),
      strip (first.2.normalText ++ rest.2.normalText)⟩
  else ⟨[], text⟩

end MuseGlimmerReasoningParser

end FreeSwarm.Server
