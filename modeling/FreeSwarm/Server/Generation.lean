import FreeSwarm.Server.GenEvents

/-!
# The events of a generation

The replies of the engine are read through a reasoning parser and a tool parser, and what they make of
the output is put together to generation events: calls are opened with their names, extended by
fragments, and closed with their arguments when the next call starts, text arrives or the output ends.
-/

namespace FreeSwarm.Server

open FreeSwarm.Foundation

/-! ## The parsers and the replies -/

/-- A segment of an increment, in generation order. -/
inductive Segment where
  | text (payload : List Char)
  | calls (items : List ToolCallItem)

structure StreamReasoningParser (R : Type) where
  parseStreamChunk : List Char → R → (List Char × List Char) × R
  flush : R → List Char × List Char

structure StreamToolParser (T : Type) where
  parseStreamEvents : List Char → T → List Segment × T
  unstreamedArguments : Int → T → Option (List Char)
  finalizeStream : T → List ToolCallItem × T
  recoverTruncatedCall : T → List ToolCallItem × T
  finishStream : T → List Char
  argsFragmentsPrefixStable : Bool

structure GenReader (R T : Type) where
  reasoningParser : Option (StreamReasoningParser R)
  toolParser : Option (StreamToolParser T)
  reasoningStart : R
  toolStart : T
  parseTools : Bool
  parseToolResponse : List Char → Option (List Char × List ToolCallItem)
  specials : List (List Char)

structure UserReply where
  error : Option (List Char)
  errorCode : Option (List Char)
  promptTokensDelta : Nat
  completionTokensDelta : Nat
  cachedTokens : Nat
  incrementalOutput : List Char
  finished : Bool
  finishReason : Option (List Char)
  matchedStop : Option (List Char)

def stripSpecialTokens (text : List Char) (tokens : List (List Char)) : List Char :=
  tokens.foldl (fun text token => if token = [] then text else removeAll token text) text

def validJson (text : List Char) : Bool := text ≠ [] && (Json.loads text).isSome

/-! ## Reading the replies -/

/-- What the parsers make of the output, piece by piece. The tool parser says with a piece which arguments
it knows of a call, by its number. -/
inductive Arrival where
  | reasoning (delta : List Char)
  | text (unstreamed : Int → Option (List Char)) (payload : List Char)
  | fragment (unstreamed : Int → Option (List Char)) (item : ToolCallItem)
  | content (delta : List Char)

def Segment.arrivals (unstreamed : Int → Option (List Char)) : Segment → List Arrival
  | text payload => [.text unstreamed payload]
  | calls items => items.map (.fragment unstreamed)

/-- What is known of the replies so far. -/
structure Reading (R T : Type) where
  reasoning : R
  tools : T
  pending : List Char
  promptTokens : Nat
  completionTokens : Nat
  cachedTokens : Nat

namespace GenReader
variable {R T : Type} (reader : GenReader R T)

def begin : Reading R T :=
  { reasoning := reader.reasoningStart, tools := reader.toolStart
    pending := [], promptTokens := 0, completionTokens := 0, cachedTokens := 0 }

/-- Content goes through the tool parser, or is kept until the end, or is passed on. -/
def readContent (delta : List Char) (st : Reading R T) : Reading R T × List Arrival :=
  if delta = [] then (st, [])
  else
    match reader.toolParser with
    | some parser =>
      let (segments, tools) := parser.parseStreamEvents delta st.tools
      ({ st with tools := tools },
        segments.flatMap (Segment.arrivals fun index => parser.unstreamedArguments index tools))
    | none =>
      if reader.parseTools then ({ st with pending := st.pending ++ delta }, [])
      else (st, [.content delta])

def readReasoning (delta : List Char) : List Arrival :=
  if delta = [] then [] else [.reasoning delta]

def readOutput (output : List Char) (st : Reading R T) : Reading R T × List Arrival :=
  match reader.reasoningParser with
  | some parser =>
    if output = [] then (st, [])
    else
      let ((thought, content), reasoning) := parser.parseStreamChunk output st.reasoning
      let (st, arrivals) := reader.readContent content { st with reasoning := reasoning }
      (st, readReasoning thought ++ arrivals)
  | none => reader.readContent output st

/-- What the reasoning parser holds back at the end. -/
def readFlush (st : Reading R T) : Reading R T × List Arrival :=
  match reader.reasoningParser with
  | some parser =>
    let (thought, content) := parser.flush st.reasoning
    let (st, arrivals) := reader.readContent content st
    (st, readReasoning thought ++ arrivals)
  | none => (st, [])

/-- A message that is there and not empty. -/
def truthy : Option (List Char) → Option (List Char)
  | some (c :: text) => some (c :: text)
  | _ => none

def readReplies : List UserReply → Ending → Reading R T →
    List Arrival × (StreamError ⊕ Reading R T × Option (List Char) × Option (List Char))
  | [], .exhausted, st => ([], .inr (st, none, none))
  | [], .raised error, _ => ([], .inl error)
  | reply :: replies, ending, st =>
    match truthy reply.error with
    | some message => ([], .inl (.generation message reply.errorCode))
    | none =>
      let st := { st with
        promptTokens := st.promptTokens + reply.promptTokensDelta
        completionTokens := st.completionTokens + reply.completionTokensDelta
        cachedTokens := st.cachedTokens + reply.cachedTokens }
      let (st, arrivals) := reader.readOutput reply.incrementalOutput st
      if reply.finished then (arrivals, .inr (st, reply.finishReason, reply.matchedStop))
      else
        let (later, outcome) := readReplies replies ending st
        (arrivals ++ later, outcome)

end GenReader

/-! ## Putting calls together -/

structure OpenCall where
  detectorIndex : Int
  name : Option (List Char)
  params : List Char
  ordinal : Nat

structure Assembly where
  openCall : Option OpenCall
  callsEmitted : Nat
  suppressWs : Bool

/-- The arguments that a call is closed with. The fragments concatenate to them, and the tool parser is
asked when the call was cut short. -/
def OpenCall.finalArguments (unstreamed : Int → Option (List Char)) (call : OpenCall) : List Char :=
  let params :=
    if validJson call.params then call.params
    else ((GenReader.truthy (unstreamed call.detectorIndex)).getD call.params)
  if params = [] then "\x7b\x7d".toList else params

namespace Assembly

/-- The state at the beginning. -/
def start : Assembly := { openCall := none, callsEmitted := 0, suppressWs := false }

def closeOpenCall (unstreamed : Int → Option (List Char)) (a : Assembly) : Assembly × List GenEvent :=
  match a.openCall with
  | none => (a, [])
  | some call =>
    ({ openCall := none, callsEmitted := a.callsEmitted + 1, suppressWs := true },
      [.toolCallsDelta [⟨call.ordinal, call.name, call.finalArguments unstreamed⟩]])

/-- Text is passed on, unless it is blank and swallowed. -/
def releaseText (specials : List (List Char)) (payload : List Char) (a : Assembly) :
    Assembly × List GenEvent :=
  let stripped := stripSpecialTokens payload specials
  if stripped ≠ [] ∧ ¬ (strip stripped = [] ∧ a.suppressWs = true) then
    ({ a with suppressWs := if strip stripped = [] then a.suppressWs else false },
      [.contentDelta stripped])
  else (a, [])

def startsNew (frag : ToolCallItem) (a : Assembly) : Bool :=
  frag.name.isSome && (match a.openCall with
    | none => true
    | some call => frag.toolIndex ≠ call.detectorIndex)

def openUnlessOpen (stable : Bool) (frag : ToolCallItem) (a : Assembly) : Assembly × List GenEvent :=
  match a.openCall with
  | some _ => (a, [])
  | none =>
    ({ a with openCall := some ⟨frag.toolIndex, frag.name, [], a.callsEmitted⟩ },
      [.toolCallStart a.callsEmitted frag.name stable])

def addParameters (frag : ToolCallItem) (a : Assembly) : Assembly × List GenEvent :=
  match a.openCall with
  | none => (a, [])
  | some call =>
    if frag.parameters = [] then (a, [])
    else
      ({ a with openCall := some { call with params := call.params ++ frag.parameters } },
        [.toolCallArgsDelta call.ordinal frag.parameters])

/-- The events of a piece. -/
def route (specials : List (List Char)) (stable : Bool) (arrival : Arrival) (a : Assembly) :
    Assembly × List GenEvent :=
  match arrival with
  | .reasoning delta =>
    let stripped := stripSpecialTokens delta specials
    (a, if stripped = [] then [] else [.reasoningDelta stripped])
  | .text unstreamed payload =>
    -- Text that arrives while a call is open means that the call is finished.
    let (a, done) := a.closeOpenCall unstreamed
    let (a, text) := a.releaseText specials payload
    (a, done ++ text)
  | .fragment unstreamed frag =>
    let (a, done) := if a.startsNew frag then a.closeOpenCall unstreamed else (a, [])
    let (a, opening) := a.openUnlessOpen stable frag
    let (a, args) := a.addParameters frag
    (a, done ++ opening ++ args)
  | .content delta => (a, [.contentDelta (stripSpecialTokens delta specials)])

/-- The events of some pieces. -/
def routeAll (specials : List (List Char)) (stable : Bool) :
    List Arrival → Assembly → Assembly × List GenEvent
  | [], a => (a, [])
  | arrival :: arrivals, a =>
    let (a, events) := a.route specials stable arrival
    let (a, later) := routeAll specials stable arrivals a
    (a, events ++ later)

/-- Fragments that close the call which was cut off. They are dropped when none is open. -/
def finalize : List ToolCallItem → Assembly → Assembly × List GenEvent
  | [], a => (a, [])
  | frag :: frags, a =>
    let (a, events) := a.addParameters frag
    let (a, later) := finalize frags a
    (a, events ++ later)

/-- Calls that were cut off inside of an unterminated block. -/
def recover : List ToolCallItem → Assembly → Assembly × List GenEvent
  | [], a => (a, [])
  | item :: items, a =>
    let (a', later) := recover items { a with callsEmitted := a.callsEmitted + 1 }
    (a', .toolCallStart a.callsEmitted item.name true ::
      .toolCallsDelta [⟨a.callsEmitted, item.name, item.parameters⟩] :: later)

end Assembly

namespace GenReader
variable {R T : Type} (reader : GenReader R T)

/-- The fragments of a call may be sent as they come. -/
def fragStable : Bool := (reader.toolParser.map (·.argsFragmentsPrefixStable)).getD true

/-- The finish reason of an answer that was cut off, and that of an answer with calls. -/
def withCalls (finishReason : List Char) : List Char :=
  if finishReason = "length".toList then finishReason else "tool_calls".toList

def drain (parser : StreamToolParser T) (tools : T) (finishReason : List Char) (a : Assembly) :
    List GenEvent × List Char :=
  let (frags, tools) := parser.finalizeStream tools
  let (a, finalized) := a.finalize frags
  let (a, done) := a.closeOpenCall fun index => parser.unstreamedArguments index tools
  let (items, tools) := parser.recoverTruncatedCall tools
  let (a, recovered) := a.recover items
  let residual := parser.finishStream tools
  let text := if residual = [] then [] else (a.releaseText reader.specials residual).2
  (finalized ++ done ++ recovered ++ text,
    if a.callsEmitted ≠ 0 then withCalls finishReason else finishReason)

/-- The output that was kept until the end is parsed as a whole. -/
def parsePending (pending finishReason : List Char) : List GenEvent × List Char :=
  match if reader.parseTools then reader.parseToolResponse pending else none with
  | some (normalText, toolCalls) =>
    let normalText := stripSpecialTokens normalText reader.specials
    ((if normalText = [] then [] else [.contentDelta normalText]) ++ [.toolCallsDelta toolCalls],
      withCalls finishReason)
  | none =>
    (if reader.parseTools ∧ pending ≠ [] then
      [.contentDelta (stripSpecialTokens pending reader.specials)] else [], finishReason)

def generateEvents (replies : List UserReply) (ending : Ending) : List GenEvent × Ending :=
  match reader.readReplies replies ending reader.begin with
  | (arrivals, .inl error) =>
    ((Assembly.start.routeAll reader.specials reader.fragStable arrivals).2, .raised error)
  | (arrivals, .inr (st, finishReason, matchedStop)) =>
    let (st, flushed) := reader.readFlush st
    let (a, events) :=
      Assembly.start.routeAll reader.specials reader.fragStable (arrivals ++ flushed)
    let finishReason := (truthy finishReason).getD "stop".toList
    let (tail, finishReason) := match reader.toolParser with
      | some parser => reader.drain parser st.tools finishReason a
      | none => reader.parsePending st.pending finishReason
    (events ++ tail ++ [.genDone finishReason st.promptTokens st.completionTokens matchedStop
      st.cachedTokens], .exhausted)

end GenReader

end FreeSwarm.Server
