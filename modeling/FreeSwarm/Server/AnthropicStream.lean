import FreeSwarm.Server.GenEvents

/-!
# Anthropic event streams

The formatter of generation events into the events of the Anthropic Messages API. The content blocks
of a well-formed stream are opened, extended and closed one at a time, numbered from zero, and the
stream ends with one terminal sequence after all of them are closed.
-/

namespace FreeSwarm.Server

/-! ## Events -/

inductive BlockKind where
  | text
  | thinking
  | tool
  deriving DecidableEq

inductive AnthropicContentBlock where
  | text (text : List Char)
  | thinking (thinking : List Char)
  | toolUse (id : List Char) (name : Option (List Char))
  deriving DecidableEq

def AnthropicContentBlock.kind : AnthropicContentBlock → BlockKind
  | text _ => .text
  | thinking _ => .thinking
  | toolUse _ _ => .tool

/-- What is added to a block. -/
inductive AnthropicDelta where
  | textDelta (text : List Char)
  | thinkingDelta (thinking : List Char)
  | signatureDelta (signature : List Char)
  | inputJsonDelta (partialJson : List Char)
  deriving DecidableEq

def AnthropicDelta.kind : AnthropicDelta → BlockKind
  | textDelta _ => .text
  | thinkingDelta _ => .thinking
  | signatureDelta _ => .thinking
  | inputJsonDelta _ => .tool

/-- The tokens that are accounted for. -/
structure AnthropicUsage where
  inputTokens : Nat
  outputTokens : Nat
  cacheReadInputTokens : Option Nat
  deriving DecidableEq

inductive AnthropicStreamEvent where
  | messageStart (id model : List Char) (usage : AnthropicUsage)
  | ping
  | contentBlockStart (index : Nat) (contentBlock : AnthropicContentBlock)
  | contentBlockDelta (index : Nat) (delta : AnthropicDelta)
  | contentBlockStop (index : Nat)
  | messageDelta (stopReason stopSequence : Option (List Char)) (usage : AnthropicUsage)
  | messageStop
  | error (type message : List Char)
  deriving DecidableEq

/-! ## The formatter -/

def stopReasonMap : List (List Char × List Char) :=
  [("stop".toList, "end_turn".toList), ("length".toList, "max_tokens".toList),
    ("tool_calls".toList, "tool_use".toList)]

/-- The stop reason and the stop sequence. A stop-string hit is reported with the matched string,
otherwise the finish reason is mapped normally. -/
def anthropicStop (finishReason : List Char) (matchedStop : Option (List Char)) :
    Option (List Char) × Option (List Char) :=
  match matchedStop with
  | some stop => (some "stop_sequence".toList, some stop)
  | none => (stopReasonMap.lookup (if finishReason = [] then "stop".toList else finishReason), none)

def anthropicUsage (promptTokens completionTokens cachedTokens : Nat) (cacheReport : Bool) :
    AnthropicUsage :=
  let cached := if cacheReport then cachedTokens else 0
  { inputTokens := promptTokens - cached
    outputTokens := completionTokens
    cacheReadInputTokens := if cached = 0 then none else some cached }

/-- What a stream is formatted with. -/
structure AnthropicSetup where
  model : List Char
  uid : List Char
  cacheReport : Bool
  uuid : Nat → List Char

structure AnthropicState where
  blockIndex : Nat
  blockOpen : Option BlockKind
  toolArgsSent : List Char
  toolOrdinal : Option Int
  toolStable : Bool
  drawn : Nat

abbrev AnthropicStep := AnthropicState × List AnthropicStreamEvent

namespace AnthropicState

def start : AnthropicState :=
  { blockIndex := 0, blockOpen := none, toolArgsSent := [], toolOrdinal := none, toolStable := true
    drawn := 0 }

/-- The open block is closed. A thinking block ends with an empty signature. -/
def stopBlock (s : AnthropicState) : AnthropicStep :=
  ({ s with blockOpen := none, blockIndex := s.blockIndex + 1 },
    (if s.blockOpen = some .thinking then
      [.contentBlockDelta s.blockIndex (.signatureDelta [])] else []) ++
      [.contentBlockStop s.blockIndex])

/-- The open block, if there is one, is closed. -/
def stopAny (s : AnthropicState) : AnthropicStep :=
  if s.blockOpen.isSome then s.stopBlock else (s, [])

/-- A text that is not empty goes into the open block if it is of the kind, else into a new one. -/
def textual (kind : BlockKind) (block : AnthropicContentBlock) (delta : AnthropicDelta)
    (s : AnthropicState) : AnthropicStep :=
  if s.blockOpen = some kind then (s, [.contentBlockDelta s.blockIndex delta])
  else
    let (s, closing) := s.stopAny
    ({ s with blockOpen := some kind },
      closing ++ [.contentBlockStart s.blockIndex block, .contentBlockDelta s.blockIndex delta])

variable (setup : AnthropicSetup)

def toolUseId (name : Option (List Char)) (index drawn : Nat) : List Char :=
  let name := match name with
    | none => "tool".toList
    | some name => if name = [] then "tool".toList else name
  "toolu_".toList ++ (name.map fun c => if c = '_' then '-' else c).take 24 ++ ['_'] ++
    (Nat.toDigits 10 index) ++ ['_'] ++ (setup.uuid drawn).take 8

def openTool (name : Option (List Char)) (ordinal : Int) (stable : Bool)
    (s : AnthropicState) : AnthropicStep :=
  let (s, closing) := s.stopAny
  ({ s with blockOpen := some .tool, toolArgsSent := [], toolOrdinal := some ordinal
            toolStable := stable, drawn := s.drawn + 1 },
    closing ++ [.contentBlockStart s.blockIndex
      (.toolUse (toolUseId setup name s.blockIndex s.drawn) name)])

def toolArgsDelta (fragment : List Char) (s : AnthropicState) : AnthropicStep :=
  ({ s with toolArgsSent := s.toolArgsSent ++ fragment },
    [.contentBlockDelta s.blockIndex (.inputJsonDelta fragment)])

/-- What was not sent of the final arguments is sent, when they go on from what was sent. -/
def topUp (final : List Char) (s : AnthropicState) : AnthropicStep :=
  let remainder := final.drop s.toolArgsSent.length
  if s.toolArgsSent <+: final ∧ remainder ≠ [] then s.toolArgsDelta remainder else (s, [])

/-- A complete call: what was not sent of the call in the open block, or the whole call in a block of
its own. -/
def toolCall (call : ToolCallItem) (s : AnthropicState) : AnthropicStep :=
  if s.blockOpen = some .tool ∧ s.toolOrdinal = some call.toolIndex then
    let (s, sent) := s.topUp call.parameters
    let (s, closing) := s.stopBlock
    (s, sent ++ closing)
  else
    let (s, opening) := s.openTool setup call.name call.toolIndex true
    let (s, sent) := s.toolArgsDelta call.parameters
    let (s, closing) := s.stopBlock
    (s, opening ++ sent ++ closing)

/-- Complete calls, one after the other. -/
def toolCalls (setup : AnthropicSetup) : List ToolCallItem → AnthropicState → AnthropicStep
  | [], s => (s, [])
  | call :: calls, s =>
    let (s, frames) := s.toolCall setup call
    let (s, more) := toolCalls setup calls s
    (s, frames ++ more)

def handle (item : StreamItem) (s : AnthropicState) : AnthropicStep :=
  match item with
  | .keepalive => (s, [.ping])
  | .event (.reasoningDelta text) =>
    if text = [] then (s, []) else s.textual .thinking (.thinking []) (.thinkingDelta text)
  | .event (.contentDelta text) =>
    if text = [] then (s, []) else s.textual .text (.text []) (.textDelta text)
  | .event (.toolCallStart toolIndex name argsPrefixStable) =>
    s.openTool setup name toolIndex argsPrefixStable
  | .event (.toolCallArgsDelta _ fragment) =>
    -- A fragment without an open tool block is dropped, and so is one of a call whose fragments do
    -- not concatenate: its arguments are sent at its close.
    if s.blockOpen ≠ some .tool ∨ s.toolStable = false then (s, []) else s.toolArgsDelta fragment
  | .event (.toolCallsDelta calls) => toolCalls setup calls s
  | .event (.genDone finishReason promptTokens completionTokens matchedStop cachedTokens) =>
    let (s, closing) := s.stopAny
    let (stopReason, stopSequence) := anthropicStop finishReason matchedStop
    (s, closing ++ [.messageDelta stopReason stopSequence
      (anthropicUsage promptTokens completionTokens cachedTokens setup.cacheReport), .messageStop])

def finish (ending : Ending) (s : AnthropicState) : List AnthropicStreamEvent :=
  match ending with
  | .exhausted => []
  | .raised (.generation message _) =>
    s.stopAny.2 ++ [.error "invalid_request_error".toList message]
  | .raised (.timeout message) => s.stopAny.2 ++ [.error "internal_error".toList message]
  | .raised (.other message) => s.stopAny.2 ++ [.error "internal_error".toList message]

end AnthropicState

def anthropicEventStream (setup : AnthropicSetup) : Formatter AnthropicState AnthropicStreamEvent where
  prologue := [.messageStart ("msg_".toList ++ setup.uid) setup.model
    { inputTokens := 0, outputTokens := 0, cacheReadInputTokens := none }]
  start := .start
  handle item s := s.handle setup item
  finish ending s := s.finish ending

/-! ## The grammar -/

/-- What a stream has come to. -/
inductive AnthropicPhase where
  | fresh
  | between (next : Nat)
  | inBlock (index : Nat) (kind : BlockKind)
  | closing
  | ended
  deriving DecidableEq

/-- What a frame makes of a phase, when it may be sent in it. -/
def AnthropicPhase.advance : AnthropicPhase → AnthropicStreamEvent → Option AnthropicPhase
  | fresh, .messageStart .. => some (between 0)
  | between next, .ping => some (between next)
  | inBlock index kind, .ping => some (inBlock index kind)
  | between next, .contentBlockStart index block =>
    if index = next then some (inBlock index block.kind) else none
  | inBlock index kind, .contentBlockDelta index' delta =>
    if index' = index ∧ delta.kind = kind then some (inBlock index kind) else none
  | inBlock index _, .contentBlockStop index' =>
    if index' = index then some (between (index + 1)) else none
  | between _, .messageDelta .. => some closing
  | closing, .messageStop => some ended
  | between _, .error .. => some ended
  | _, _ => none

attribute [local simp] AnthropicPhase.advance

namespace AnthropicState

def phase (s : AnthropicState) : AnthropicPhase :=
  match s.blockOpen with
  | none => .between s.blockIndex
  | some kind => .inBlock s.blockIndex kind

variable {setup : AnthropicSetup}

/-- Frames that keep the grammar. -/
abbrev Advances (s : AnthropicState) (step : AnthropicStep) : Prop :=
  Server.Advances AnthropicPhase.advance phase s step

theorem stopBlock_advances {s : AnthropicState} (some_ : s.blockOpen.isSome) :
    s.Advances s.stopBlock := by
  obtain ⟨kind, open_⟩ := Option.isSome_iff_exists.mp some_
  cases kind <;> simp [Server.Advances, stopBlock, phase, open_, AnthropicPhase.advance, AnthropicDelta.kind]

variable (s : AnthropicState)

theorem stopAny_advances : s.Advances s.stopAny := by
  unfold stopAny
  split_ifs with some_
  · exact stopBlock_advances some_
  · rfl

@[simp] theorem blockOpen_stopAny : s.stopAny.1.blockOpen = none := by
  unfold stopAny
  split_ifs with some_
  · rfl
  · simpa using some_

theorem stopAny_then {f : AnthropicState → AnthropicStep}
    (later : ∀ s' : AnthropicState, s'.blockOpen = none → s'.Advances (f s')) :
    s.Advances ((f s.stopAny.1).1, s.stopAny.2 ++ (f s.stopAny.1).2) := by
  apply Advances.trans s.stopAny_advances
  exact later s.stopAny.1 s.blockOpen_stopAny

theorem textual_advances {kind : BlockKind} {block : AnthropicContentBlock}
    {delta : AnthropicDelta} (hblock : block.kind = kind) (hdelta : delta.kind = kind) :
    s.Advances (s.textual kind block delta) := by
  unfold textual
  split_ifs with open_
  · simp [Server.Advances, phase, open_, AnthropicPhase.advance, hdelta]
  · apply s.stopAny_then (f := fun s => ({ s with blockOpen := some kind },
      [.contentBlockStart s.blockIndex block, .contentBlockDelta s.blockIndex delta]))
    intro s' none_
    simp [Server.Advances, phase, none_, AnthropicPhase.advance, hblock, hdelta]

theorem openTool_advances (name : Option (List Char)) (ordinal : Int)
    (stable : Bool) : s.Advances (s.openTool setup name ordinal stable) := by
  apply s.stopAny_then (f := fun s =>
    ({ s with blockOpen := some .tool, toolArgsSent := [], toolOrdinal := some ordinal
              toolStable := stable, drawn := s.drawn + 1 },
      [.contentBlockStart s.blockIndex (.toolUse (toolUseId setup name s.blockIndex s.drawn) name)]))
  intro s' none_
  simp [Server.Advances, phase, none_, AnthropicPhase.advance, AnthropicContentBlock.kind]

theorem toolArgsDelta_advances {s : AnthropicState} (open_ : s.blockOpen = some .tool)
    (fragment : List Char) : s.Advances (s.toolArgsDelta fragment) := by
  simp [Server.Advances, toolArgsDelta, phase, open_, AnthropicPhase.advance, AnthropicDelta.kind]

@[simp] theorem blockOpen_topUp (final : List Char) :
    (s.topUp final).1.blockOpen = s.blockOpen := by
  unfold topUp
  simp only
  split_ifs
  · rfl
  · rfl

theorem topUp_advances {s : AnthropicState} (open_ : s.blockOpen = some .tool)
    (final : List Char) : s.Advances (s.topUp final) := by
  unfold topUp
  simp only
  split_ifs
  · exact toolArgsDelta_advances open_ _
  · rfl

theorem toolCall_advances (call : ToolCallItem) :
    s.Advances (s.toolCall setup call) := by
  unfold toolCall
  split_ifs with here
  · have closes := @stopBlock_advances (s.topUp call.parameters).1 (by simp [here.1])
    exact Advances.trans (topUp_advances here.1 call.parameters) closes
  · apply Advances.trans (Advances.trans (openTool_advances s _ _ _)
      (toolArgsDelta_advances rfl _))
    exact stopBlock_advances rfl

theorem toolCalls_advances (calls : List ToolCallItem) :
    s.Advances (toolCalls setup calls s) := by
  induction calls generalizing s with
  | nil => rfl
  | cons call calls ih => exact Advances.trans (s.toolCall_advances call) (ih _)

theorem handle_advances {item : StreamItem} (going : item.Going) (s : AnthropicState) :
    s.Advances (s.handle setup item) := by
  unfold handle
  match item with
  | .keepalive =>
    unfold Advances Server.Advances phase
    cases s.blockOpen <;> rfl
  | .event (.reasoningDelta text) =>
    simp only
    split_ifs
    · rfl
    · exact s.textual_advances rfl rfl
  | .event (.contentDelta text) =>
    simp only
    split_ifs
    · rfl
    · exact s.textual_advances rfl rfl
  | .event (.toolCallStart toolIndex name stable) => exact s.openTool_advances name toolIndex stable
  | .event (.toolCallArgsDelta toolIndex fragment) =>
    simp only
    split_ifs with dropped
    · rfl
    · exact toolArgsDelta_advances (not_not.mp (not_or.mp dropped).1) fragment
  | .event (.toolCallsDelta calls) => exact s.toolCalls_advances calls
  | .event (.genDone ..) => exact absurd going (by simp [StreamItem.Going, GenEvent.isDone])

theorem done_ends {done : GenEvent} (isDone : done.isDone = true) (s : AnthropicState) :
    (s.handle setup (.event done)).2.foldlM AnthropicPhase.advance s.phase = some .ended := by
  match done, isDone with
  | .genDone finishReason promptTokens completionTokens matchedStop cachedTokens, _ =>
    unfold handle
    simp only
    rw [List.foldlM_append, show s.stopAny.2.foldlM _ _ = _ from s.stopAny_advances]
    simp [phase, AnthropicPhase.advance]

theorem error_ends (error : StreamError) (s : AnthropicState) :
    (s.finish (.raised error)).foldlM AnthropicPhase.advance s.phase = some .ended := by
  unfold finish
  cases error <;>
  · simp only
    rw [List.foldlM_append, show s.stopAny.2.foldlM _ _ = _ from s.stopAny_advances]
    simp [phase, AnthropicPhase.advance]

end AnthropicState

theorem anthropicEventStream_keeps (setup : AnthropicSetup) :
    (anthropicEventStream setup).Keeps AnthropicPhase.advance .fresh .ended AnthropicState.phase where
  begins := rfl
  going _ s going := s.handle_advances going
  done _ s isDone := AnthropicState.done_ends isDone s
  exhausted _ := rfl
  raised error s := AnthropicState.error_ends error s
  keepalive _ := List.cons_ne_nil _ _
  stops frame := by cases frame <;> rfl

end FreeSwarm.Server
