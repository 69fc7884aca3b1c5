import FreeSwarm.Server.TagPatterns

/-!
# Streaming of invoke and parameter blocks

Value-level streaming for the formats made of invocations and parameters. Text outside blocks streams
live. The value of a parameter whose type is text streams as it comes, escaped; any other value waits
until the parameter closes. The families differ in their grammar only.
-/

namespace FreeSwarm.Server

open FreeSwarm.Foundation

structure InvokeParamGrammar where
  outerOpen : List Char
  outerClose : List Char
  invokeOpenPrefix : List Char
  invokeOpenRe : List Char → Option (List Char × List Char)
  invokeClose : List Char
  paramOpenPrefix : List Char
  paramOpenRe : List Char → Option (List Char × List Char)
  paramClose : List Char
  trim : List Char
  trimSingle : Bool
  missingType : List Char
  canonicalName : List Char → List Char

namespace InvokeParamGrammar

/-- A value without what is trimmed before it. -/
def trimLeading (g : InvokeParamGrammar) (text : List Char) : List Char :=
  if g.trimSingle then
    match text with
    | [] => []
    | c :: rest => if c ∈ g.trim then rest else c :: rest
  else text.dropWhile (· ∈ g.trim)

/-- A value without what is trimmed behind it. -/
def trimTrailing (g : InvokeParamGrammar) (text : List Char) : List Char :=
  if g.trimSingle then
    match text.getLast? with
    | none => []
    | some c => if c ∈ g.trim then text.dropLast else text
  else text.rdropWhile (· ∈ g.trim)

def convertValue (g : InvokeParamGrammar) (py : Conversions) (key raw : List Char)
    (paramConfig : ParamConfig) : Option Json :=
  if (paramConfig.lookup key).isSome ∨ g.missingType ≠ "loose".toList then
    convertParamValue py raw key paramConfig
  else parseLooseJsonValue py raw

end InvokeParamGrammar

/-- Where in a block the stream is. -/
inductive PsMode where
  | idle
  | block
  | invoke
  | invokeSkip
  | pstr
  | pbuf
  | pskip
  deriving DecidableEq

structure InvokeParamStream where
  buffer : List Char
  mode : PsMode
  key : List Char
  lead : List Char
  leadTrimmed : Bool
  paramConfig : ParamConfig
  argsStarted : Bool
  ledger : CallLedger

structure PsTurn where
  next : InvokeParamStream
  out : StreamingParseResult
  again : Bool

namespace InvokeParamStream

def start : InvokeParamStream :=
  { buffer := [], mode := .idle, key := [], lead := ['\x7b'], leadTrimmed := false
    paramConfig := [], argsStarted := false, ledger := .start }

/-- The loop ends and the state is as it was. -/
def stop (s : InvokeParamStream) : PsTurn := { next := s, out := .empty, again := false }

/-- The last characters of the buffer stay, those before them are markup between tags. -/
def keep (s : InvokeParamStream) (hold : Nat) : PsTurn :=
  { next := { s with buffer := s.buffer.drop (s.buffer.length - hold) }, out := .empty
    again := false }

variable (g : InvokeParamGrammar) (env : ToolSetup)

def idleRound (s : InvokeParamStream) (called : Bool) : PsTurn :=
  if called then s.stop  -- text after a call defers to the next step
  else
    match findSub g.outerOpen s.buffer with
    | none =>
      let safe := s.buffer.length - endsWithPartialToken s.buffer g.outerOpen
      { next := { s with buffer := s.buffer.drop safe }, out := ⟨s.buffer.take safe, []⟩
        again := false }
    | some pos =>
      if 0 < pos then
        { next := { s with buffer := s.buffer.drop pos }, out := ⟨s.buffer.take pos, []⟩
          again := true }
      else
        { next := { s with buffer := s.buffer.drop g.outerOpen.length, mode := .block }
          out := .empty, again := true }

/-- The tag that opens an invocation has been read. -/
def beginInvoke (s : InvokeParamStream) (raw rest : List Char) : PsTurn :=
  let funcName := g.canonicalName (strip raw)
  let ledger := s.ledger.prepare
  if env.accepts funcName then
    let (ledger, calls) := ledger.open_ funcName
    { next := { s with buffer := rest, mode := .invoke, argsStarted := false
                       paramConfig := env.paramConfig funcName, ledger := ledger }
      out := ⟨[], calls⟩, again := true }
  else
    { next := { s with buffer := rest, mode := .invokeSkip, ledger := ledger }, out := .empty
      again := true }

def blockRound (s : InvokeParamStream) : PsTurn :=
  let close := if g.outerClose = [] then none else findSub g.outerClose s.buffer
  match nextTag close (findSub g.invokeOpenPrefix s.buffer) with
  | .closes pos =>
    { next := { s with buffer := s.buffer.drop (pos + g.outerClose.length), mode := .idle }
      out := .empty, again := true }
  | .opens pos =>
    match searchTag g.invokeOpenRe (s.buffer.drop pos) with
    | none => s.stop
    | some (raw, rest) => s.beginInvoke g env raw rest
  | .neither =>
    s.keep (max (endsWithPartialToken s.buffer g.invokeOpenPrefix)
      (if g.outerClose = [] then 0 else endsWithPartialToken s.buffer g.outerClose))

/-- The tag that opens a parameter has been read. -/
def beginParam (s : InvokeParamStream) (raw rest : List Char) : PsTurn :=
  let key := strip raw
  let lead := if s.argsStarted then [','] else ['\x7b']
  let s' := { s with buffer := rest, key := key, argsStarted := true }
  if schemaParamType env.py key s.paramConfig g.missingType ∈ stringTypes then
    let (ledger, calls) := s.ledger.emit (lead ++ quote key ++ [':', '"'])
    { next := { s' with mode := .pstr, leadTrimmed := false, ledger := ledger }
      out := ⟨[], calls⟩, again := true }
  else { next := { s' with mode := .pbuf, lead := lead }, out := .empty, again := true }

/-- The marker that closes an invocation has been read. -/
def endInvoke (s : InvokeParamStream) (rest : List Char) : PsTurn :=
  let (ledger, calls) := s.ledger.emit (if s.argsStarted then ['\x7d'] else ['\x7b', '\x7d'])
  { next := { s with buffer := rest, mode := .block, ledger := ledger.updatePrev.next }
    out := ⟨[], calls⟩, again := true }

def invokeRound (skip : Bool) (s : InvokeParamStream) : PsTurn :=
  match nextTag (findSub g.invokeClose s.buffer) (findSub g.paramOpenPrefix s.buffer) with
  | .closes pos =>
    let rest := s.buffer.drop (pos + g.invokeClose.length)
    if skip then { next := { s with buffer := rest, mode := .block }, out := .empty, again := true }
    else s.endInvoke rest
  | .opens pos =>
    match searchTag g.paramOpenRe (s.buffer.drop pos) with
    | none => s.stop
    | some (raw, rest) =>
      if skip then
        { next := { s with buffer := rest, mode := .pskip }, out := .empty, again := true }
      else s.beginParam g env raw rest
  | .neither =>
    s.keep (max (endsWithPartialToken s.buffer g.paramOpenPrefix)
      (endsWithPartialToken s.buffer g.invokeClose))

/-- A turn in a value that is streamed and of which nothing is trimmed in front any more. -/
def valueRound (s : InvokeParamStream) : PsTurn :=
  match findSub g.paramClose s.buffer with
  | none =>
    let safe := s.buffer.take (s.buffer.length - endsWithPartialToken s.buffer g.paramClose)
    let emitNow := safe.rdropWhile (· ∈ g.trim)
    let (ledger, calls) := s.ledger.emit (escape emitNow)
    { next := { s with buffer := s.buffer.drop emitNow.length, ledger := ledger }
      out := ⟨[], calls⟩, again := false }
  | some pos =>
    let tail := g.trimTrailing (s.buffer.take pos)
    let (ledger, calls) := s.ledger.emit (escape tail ++ ['"'])
    { next := { s with buffer := s.buffer.drop (pos + g.paramClose.length), mode := .invoke
                       ledger := ledger.updatePrev }
      out := ⟨[], calls⟩, again := true }

def strRound (s : InvokeParamStream) : PsTurn :=
  if s.leadTrimmed then s.valueRound g
  else
    let trimmed := g.trimLeading s.buffer
    if trimmed ≠ s.buffer then
      { next := { s with buffer := trimmed, leadTrimmed := g.trimSingle || !trimmed.isEmpty }
        out := .empty, again := true }
    else { s with leadTrimmed := true }.valueRound g

/-- A turn in a value that is held, which fails when the conversion of the value does. -/
def bufRound (s : InvokeParamStream) : Option PsTurn :=
  match findSub g.paramClose s.buffer with
  | none => some s.stop
  | some pos =>
    let raw := g.trimTrailing (g.trimLeading (s.buffer.take pos))
    (g.convertValue env.py s.key raw s.paramConfig).map fun converted =>
      let (ledger, calls) := s.ledger.emit (s.lead ++ quote s.key ++ [':'] ++ converted.dumps)
      { next := { s with buffer := s.buffer.drop (pos + g.paramClose.length), mode := .invoke
                         ledger := ledger.updatePrev }
        out := ⟨[], calls⟩, again := true }

def skipRound (s : InvokeParamStream) : PsTurn :=
  match findSub g.paramClose s.buffer with
  | none => s.stop
  | some pos =>
    { next := { s with buffer := s.buffer.drop (pos + g.paramClose.length), mode := .invokeSkip }
      out := .empty, again := true }

/-- A turn of the loop, when something is in the buffer. `called` says whether a call was sent in
this step. -/
def round (s : InvokeParamStream) (called : Bool) : Option PsTurn :=
  match s.mode with
  | .idle => some (s.idleRound g called)
  | .block => some (s.blockRound g env)
  | .invoke => some (s.invokeRound g env false)
  | .invokeSkip => some (s.invokeRound g env true)
  | .pstr => some (s.strRound g)
  | .pbuf => s.bufRound g env
  | .pskip => some (s.skipRound g)

/-- The loop. Every turn after which it goes on takes something from the buffer, so that the length
of the buffer is a bound for the turns. -/
def loop : Nat → InvokeParamStream → StreamingParseResult →
    Option (InvokeParamStream × StreamingParseResult)
  | 0, s, out => some (s, out)
  | turns + 1, s, out =>
    if s.buffer = [] then some (s, out)
    else
      match s.round g env (!out.calls.isEmpty) with
      | none => none
      | some turn =>
        if turn.again then loop turns turn.next (out ++ turn.out)
        else some (turn.next, out ++ turn.out)

def parseStreamingIncrement (s : InvokeParamStream) (newText : List Char) :
    Option (InvokeParamStream × StreamingParseResult) :=
  let s := { s with buffer := s.buffer ++ newText }
  s.loop g env s.buffer.length .empty

def feed (s : InvokeParamStream) :
    List (List Char) → Option (InvokeParamStream × StreamingParseResult)
  | [] => some (s, .empty)
  | piece :: pieces => do
    let (s, out) ← s.parseStreamingIncrement g env piece
    let (s, out') ← s.feed pieces
    some (s, out ++ out')

/-- What is left at the end of a stream and is no markup. -/
def finishStreaming (s : InvokeParamStream) : List Char :=
  if s.mode ≠ .idle ∨ g.outerOpen ≠ [] ∧ g.outerOpen <:+: s.buffer then []
  else if s.ledger.prevToolCallArr ≠ [] ∧ strip s.buffer = [] then []
  else s.buffer

end InvokeParamStream

end FreeSwarm.Server
