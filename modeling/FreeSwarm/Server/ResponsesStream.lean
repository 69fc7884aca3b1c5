import FreeSwarm.Server.AnthropicStream

/-!
# Responses event streams

The formatter of generation events into the events of the OpenAI Responses API. The frames of a
well-formed stream are numbered from zero, its output items are added and done one at a time and
numbered from zero as well, and the stream ends with one terminal event, whose snapshot holds the
items that were done.
-/

namespace FreeSwarm.Server

/-! ## Events -/

inductive ItemStatus where
  | inProgress
  | completed
  | incomplete
  deriving DecidableEq

inductive ResponseItem where
  | reasoning (id : List Char) (content : List (List Char)) (status : ItemStatus)
  | message (id : List Char) (content : List (List Char)) (status : ItemStatus)
  | functionCall (id callId name arguments : List Char) (status : ItemStatus)
  deriving DecidableEq

inductive ResponseStatus where
  | inProgress
  | completed
  | incomplete
  | failed
  deriving DecidableEq

/-- The tokens that are accounted for. -/
structure ResponseUsage where
  inputTokens : Nat
  outputTokens : Nat
  totalTokens : Nat
  cachedTokens : Nat
  cacheWriteTokens : Nat
  reasoningTokens : Nat
  deriving DecidableEq

structure ResponseError where
  code : List Char
  message : List Char
  deriving DecidableEq

structure Response where
  id : List Char
  createdAt : Nat
  model : List Char
  output : List ResponseItem
  status : ResponseStatus
  usage : Option ResponseUsage
  error : Option ResponseError
  incompleteDetails : Option (List Char)
  deriving DecidableEq

/-- What a frame says. -/
inductive ResponsesEvent where
  | created (response : Response)
  | inProgress (response : Response)
  | outputItemAdded (outputIndex : Nat) (item : ResponseItem)
  | contentPartAdded (itemId : List Char) (outputIndex contentIndex : Nat) (text : List Char)
  | reasoningTextDelta (itemId : List Char) (outputIndex contentIndex : Nat) (delta : List Char)
  | outputTextDelta (itemId : List Char) (outputIndex contentIndex : Nat) (delta : List Char)
  | functionCallArgumentsDelta (itemId : List Char) (outputIndex : Nat) (delta : List Char)
  | reasoningTextDone (itemId : List Char) (outputIndex contentIndex : Nat) (text : List Char)
  | outputTextDone (itemId : List Char) (outputIndex contentIndex : Nat) (text : List Char)
  | contentPartDone (itemId : List Char) (outputIndex contentIndex : Nat) (text : List Char)
  | functionCallArgumentsDone (itemId : List Char) (outputIndex : Nat) (name arguments : List Char)
  | outputItemDone (outputIndex : Nat) (item : ResponseItem)
  | completed (response : Response)
  | incomplete (response : Response)
  | failed (response : Response)
  deriving DecidableEq

structure ResponsesFrame where
  sequenceNumber : Nat
  event : ResponsesEvent
  deriving DecidableEq

def numberedFrames : Nat → List ResponsesEvent → List ResponsesFrame
  | _, [] => []
  | seq, ev :: evs => ⟨seq, ev⟩ :: numberedFrames (seq + 1) evs

/-! ## The formatter -/

/-- What a stream is formatted with. -/
structure ResponsesSetup where
  responseId : List Char
  created : Nat
  model : List Char
  cacheReport : Bool
  uuid : Nat → List Char

def responseObj (setup : ResponsesSetup) (output : List ResponseItem) (status : ResponseStatus)
    (usage : Option ResponseUsage) (error : Option ResponseError) (incompleteReason : Option (List Char)) :
    Response :=
  { id := setup.responseId, createdAt := setup.created, model := setup.model, output := output
    status := status, usage := usage, error := error, incompleteDetails := incompleteReason }

def responseUsage (promptTokens completionTokens cachedTokens : Nat) : ResponseUsage :=
  { inputTokens := promptTokens, outputTokens := completionTokens
    totalTokens := promptTokens + completionTokens, cachedTokens := cachedTokens
    cacheWriteTokens := 0, reasoningTokens := 0 }

inductive CurrentItem where
  | reasoning (id text : List Char)
  | message (id text : List Char)
  | functionCall (id callId name args : List Char) (ordinal : Int)

structure ResponsesState where
  seq : Nat
  outputItems : List ResponseItem
  outputIndex : Nat
  current : Option CurrentItem
  finishReason : List Char
  usagePt : Nat
  usageCt : Nat
  usageCached : Nat
  drawn : Nat

abbrev ResponsesStep := ResponsesState × List ResponsesFrame

/-- The finish reason of an answer that was cut off. -/
def lengthReason : List Char := "length".toList

namespace ResponsesState

/-- The state behind the first two frames. -/
def start : ResponsesState :=
  { seq := 2, outputItems := [], outputIndex := 0, current := none, finishReason := "stop".toList
    usagePt := 0, usageCt := 0, usageCached := 0, drawn := 0 }

/-- Events are sent under the next numbers. -/
def send (evs : List ResponsesEvent) (s : ResponsesState) : ResponsesStep :=
  ({ s with seq := s.seq + evs.length }, numberedFrames s.seq evs)

def closeItem (evs : List ResponsesEvent) (item : ResponseItem) (s : ResponsesState) : ResponsesStep :=
  let (s, frames) := s.send (evs ++ [.outputItemDone s.outputIndex item])
  ({ s with outputItems := s.outputItems ++ [item], outputIndex := s.outputIndex + 1, current := none },
    frames)

variable (setup : ResponsesSetup) (s : ResponsesState)

/-- The current item, if there is one, is done. Only the final message of an answer that was cut off is
marked incomplete. -/
def closeCurrent : ResponsesStep :=
  match s.current with
  | none => (s, [])
  | some (.reasoning id text) =>
    s.closeItem [.reasoningTextDone id s.outputIndex 0 text] (.reasoning id [text] .completed)
  | some (.message id text) =>
    s.closeItem [.outputTextDone id s.outputIndex 0 text, .contentPartDone id s.outputIndex 0 text]
      (.message id [text] (if s.finishReason = lengthReason then .incomplete else .completed))
  | some (.functionCall id callId name args _) =>
    s.closeItem [.functionCallArgumentsDone id s.outputIndex name args]
      (.functionCall id callId name args .completed)

def openReasoning : ResponsesStep :=
  let (s, closing) := s.closeCurrent
  let id := "rs_".toList ++ setup.uuid s.drawn
  let (s, frames) := s.send [.outputItemAdded s.outputIndex (.reasoning id [] .inProgress)]
  ({ s with current := some (.reasoning id []), drawn := s.drawn + 1 }, closing ++ frames)

def openMessage : ResponsesStep :=
  let (s, closing) := s.closeCurrent
  let id := "msg_".toList ++ setup.uuid s.drawn
  let (s, frames) := s.send [.outputItemAdded s.outputIndex (.message id [] .inProgress),
    .contentPartAdded id s.outputIndex 0 []]
  ({ s with current := some (.message id []), drawn := s.drawn + 1 }, closing ++ frames)

def openFunctionCall (name : List Char) (ordinal : Int) (s : ResponsesState) :
    ResponsesStep :=
  let (s, closing) := s.closeCurrent
  let id := "fc_".toList ++ setup.uuid s.drawn
  let callId := "call_".toList ++ (setup.uuid (s.drawn + 1)).take 24
  let (s, frames) := s.send [.outputItemAdded s.outputIndex (.functionCall id callId name [] .inProgress)]
  ({ s with current := some (.functionCall id callId name [] ordinal), drawn := s.drawn + 2 },
    closing ++ frames)

def inReasoning : Bool :=
  match s.current with
  | some (.reasoning ..) => true
  | _ => false

def inMessage : Bool :=
  match s.current with
  | some (.message ..) => true
  | _ => false

/-- The current item is extended by a text. -/
def addText (text : List Char) (s : ResponsesState) : ResponsesStep :=
  match s.current with
  | some (.reasoning id before) =>
    let (s, frames) := s.send [.reasoningTextDelta id s.outputIndex 0 text]
    ({ s with current := some (.reasoning id (before ++ text)) }, frames)
  | some (.message id before) =>
    let (s, frames) := s.send [.outputTextDelta id s.outputIndex 0 text]
    ({ s with current := some (.message id (before ++ text)) }, frames)
  | _ => (s, [])

/-- A fragment of arguments is added to the current call. It is dropped when there is none. -/
def addArgs (fragment : List Char) (s : ResponsesState) : ResponsesStep :=
  match s.current with
  | some (.functionCall id callId name args ordinal) =>
    let (s, frames) := s.send [.functionCallArgumentsDelta id s.outputIndex fragment]
    ({ s with current := some (.functionCall id callId name (args ++ fragment) ordinal) }, frames)
  | _ => (s, [])

/-- The arguments of the current call become the final ones, and what was not sent of them is sent when
they go on from what was sent. -/
def topUp (final : List Char) (s : ResponsesState) : ResponsesStep :=
  match s.current with
  | some (.functionCall id callId name args ordinal) =>
    let remainder := final.drop args.length
    let (s, frames) := s.send (if args <+: final ∧ remainder ≠ [] then
      [.functionCallArgumentsDelta id s.outputIndex remainder] else [])
    ({ s with current := some (.functionCall id callId name final ordinal) }, frames)
  | _ => (s, [])

/-- The number of the current call. -/
def ordinal (s : ResponsesState) : Option Int :=
  match s.current with
  | some (.functionCall _ _ _ _ ordinal) => some ordinal
  | _ => none

/-- A complete call: what was not sent of the current call, or the whole call in an item of its own. -/
def toolCall (call : ToolCallItem) (s : ResponsesState) : ResponsesStep :=
  if s.ordinal = some call.toolIndex then
    let (s, sent) := s.topUp call.parameters
    let (s, closing) := s.closeCurrent
    (s, sent ++ closing)
  else
    let (s, opening) := s.openFunctionCall setup (call.name.getD []) call.toolIndex
    let (s, sent) := s.addArgs call.parameters
    let (s, closing) := s.closeCurrent
    (s, opening ++ sent ++ closing)

/-- Complete calls, one after the other. -/
def toolCalls (setup : ResponsesSetup) : List ToolCallItem → ResponsesState → ResponsesStep
  | [], s => (s, [])
  | call :: calls, s =>
    let (s, frames) := s.toolCall setup call
    let (s, more) := toolCalls setup calls s
    (s, frames ++ more)

/-- The end of the generation. -/
def genDone (finishReason : List Char)
    (promptTokens completionTokens cachedTokens : Nat) (s : ResponsesState) : ResponsesStep :=
  let cached := if setup.cacheReport then cachedTokens else 0
  let (s, closing) := closeCurrent { s with
    finishReason := finishReason, usagePt := promptTokens, usageCt := completionTokens
    usageCached := cached }
  let usage := some (responseUsage s.usagePt s.usageCt s.usageCached)
  let (s, terminal) := s.send
    [if finishReason = lengthReason then
      .incomplete (responseObj setup s.outputItems .incomplete usage none
        (some "max_output_tokens".toList))
    else .completed (responseObj setup s.outputItems .completed usage none none)]
  (s, closing ++ terminal)

def handle (item : StreamItem) (s : ResponsesState) : ResponsesStep :=
  match item with
  | .keepalive => s.send [.inProgress (responseObj setup s.outputItems .inProgress none none none)]
  | .event (.reasoningDelta text) =>
    if text = [] then (s, [])
    else
      let (s, opening) := if s.inReasoning then (s, []) else s.openReasoning setup
      let (s, delta) := s.addText text
      (s, opening ++ delta)
  | .event (.contentDelta text) =>
    if text = [] then (s, [])
    else
      let (s, opening) := if s.inMessage then (s, []) else s.openMessage setup
      let (s, delta) := s.addText text
      (s, opening ++ delta)
  | .event (.toolCallStart toolIndex name _) => s.openFunctionCall setup (name.getD []) toolIndex
  | .event (.toolCallArgsDelta _ fragment) => s.addArgs fragment
  | .event (.toolCallsDelta calls) => toolCalls setup calls s
  | .event (.genDone finishReason promptTokens completionTokens _ cachedTokens) =>
    s.genDone setup finishReason promptTokens completionTokens cachedTokens

def fail (code message : List Char) (s : ResponsesState) :
    List ResponsesFrame :=
  let (s, closing) := s.closeCurrent
  closing ++ (s.send [.failed (responseObj setup s.outputItems .failed
    (some (responseUsage s.usagePt s.usageCt s.usageCached)) (some ⟨code, message⟩) none)]).2

/-- The code of a failure that has none. -/
def serverError : List Char := "server_error".toList

def finish (ending : Ending) (s : ResponsesState) : List ResponsesFrame :=
  match ending with
  | .exhausted => []
  | .raised (.generation message none) => s.fail setup serverError message
  | .raised (.generation message (some code)) =>
    s.fail setup (if code = [] then serverError else code) message
  | .raised (.timeout message) => s.fail setup serverError message
  | .raised (.other message) => s.fail setup serverError message

end ResponsesState

def responsesStreamGenerator (setup : ResponsesSetup) : Formatter ResponsesState ResponsesFrame where
  prologue := numberedFrames 0 [.created (responseObj setup [] .inProgress none none none),
    .inProgress (responseObj setup [] .inProgress none none none)]
  start := .start
  handle item s := s.handle setup item
  finish ending s := s.finish setup ending

/-! ## The grammar -/

inductive OpenItem where
  | reasoning (id text : List Char)
  | reasoningDone (id text : List Char)
  | messageAdded (id : List Char)
  | message (id text : List Char)
  | messageTextDone (id text : List Char)
  | messageDone (id text : List Char)
  | functionCall (id callId name : List Char)
  | functionCallDone (id callId name arguments : List Char)
  deriving DecidableEq

namespace OpenItem

def ofAdded : ResponseItem → Option OpenItem
  | .reasoning id [] .inProgress => some (reasoning id [])
  | .message id [] .inProgress => some (messageAdded id)
  | .functionCall id callId name [] .inProgress => some (functionCall id callId name)
  | _ => none

/-- What an event makes of an item, when it is about this item, of its kind and number. -/
def extend (index : Nat) : OpenItem → ResponsesEvent → Option OpenItem
  | reasoning id text, .reasoningTextDelta id' index' 0 delta =>
    if id' = id ∧ index' = index then some (reasoning id (text ++ delta)) else none
  | reasoning id text, .reasoningTextDone id' index' 0 text' =>
    if id' = id ∧ index' = index ∧ text' = text then some (reasoningDone id text) else none
  | messageAdded id, .contentPartAdded id' index' 0 [] =>
    if id' = id ∧ index' = index then some (message id []) else none
  | message id text, .outputTextDelta id' index' 0 delta =>
    if id' = id ∧ index' = index then some (message id (text ++ delta)) else none
  | message id text, .outputTextDone id' index' 0 text' =>
    if id' = id ∧ index' = index ∧ text' = text then some (messageTextDone id text) else none
  | messageTextDone id text, .contentPartDone id' index' 0 text' =>
    if id' = id ∧ index' = index ∧ text' = text then some (messageDone id text) else none
  | functionCall id callId name, .functionCallArgumentsDelta id' index' _ =>
    if id' = id ∧ index' = index then some (functionCall id callId name) else none
  | functionCall id callId name, .functionCallArgumentsDone id' index' name' arguments =>
    if id' = id ∧ index' = index ∧ name' = name then
      some (functionCallDone id callId name arguments) else none
  | _, _ => none

def DoneAs : OpenItem → ResponseItem → Prop
  | reasoningDone id text, item => item = .reasoning id [text] .completed
  | messageDone id text, item =>
    item = .message id [text] .completed ∨ item = .message id [text] .incomplete
  | functionCallDone id callId name arguments, item =>
    item = .functionCall id callId name arguments .completed
  | _, _ => False

instance (o : OpenItem) (item : ResponseItem) : Decidable (o.DoneAs item) := by
  cases o <;> unfold DoneAs <;> infer_instance

end OpenItem

/-- What a stream has come to. -/
inductive ResponsesPhase where
  | fresh
  | created
  /-- The next frame has the number `seq`, the current item the number `index`, and these items are
  done. -/
  | going (seq index : Nat) (closed : List ResponseItem) (item : Option OpenItem)
  | ended
  deriving DecidableEq

/-- What an event makes of a stream that is going on, when it may be sent. -/
def ResponsesPhase.advanceEvent (seq index : Nat) (closed : List ResponseItem) :
    Option OpenItem → ResponsesEvent → Option ResponsesPhase
  | item, .inProgress response =>
    if response.output = closed ∧ response.status = .inProgress then some (going seq index closed item)
    else none
  | none, .outputItemAdded index' item =>
    if index' = index then (OpenItem.ofAdded item).map fun o => going seq index closed (some o)
    else none
  | some o, .outputItemDone index' item =>
    if index' = index ∧ o.DoneAs item then some (going seq (index + 1) (closed ++ [item]) none) else none
  | some o, ev => (o.extend index ev).map fun o => going seq index closed (some o)
  | none, .completed response =>
    if response.output = closed ∧ response.status = .completed then some ended else none
  | none, .incomplete response =>
    if response.output = closed ∧ response.status = .incomplete then some ended else none
  | none, .failed response =>
    if response.output = closed ∧ response.status = .failed then some ended else none
  | none, _ => none

def ResponsesPhase.advance : ResponsesPhase → ResponsesFrame → Option ResponsesPhase
  | fresh, ⟨number, .created response⟩ =>
    if number = 0 ∧ response.output = [] ∧ response.status = .inProgress then some created else none
  | created, ⟨number, .inProgress response⟩ =>
    if number = 1 ∧ response.output = [] ∧ response.status = .inProgress then some (going 2 0 [] none)
    else none
  | going seq index closed item, ⟨number, ev⟩ =>
    if number = seq then advanceEvent (seq + 1) index closed item ev else none
  | _, _ => none

def CurrentItem.openItem : CurrentItem → OpenItem
  | reasoning id text => .reasoning id text
  | message id text => .message id text
  | functionCall id callId name _ _ => .functionCall id callId name

namespace ResponsesState

def phase (s : ResponsesState) : ResponsesPhase :=
  .going s.seq s.outputIndex s.outputItems (s.current.map CurrentItem.openItem)

variable {setup : ResponsesSetup}

/-- Frames that keep the grammar. -/
abbrev Advances (s : ResponsesState) (step : ResponsesStep) : Prop :=
  Server.Advances ResponsesPhase.advance phase s step

attribute [local simp] ResponsesPhase.advanceEvent OpenItem.ofAdded OpenItem.extend OpenItem.DoneAs
  CurrentItem.openItem Server.Advances send numberedFrames phase

@[simp] theorem advance_going (seq index : Nat) (closed : List ResponseItem) (item : Option OpenItem)
    (ev : ResponsesEvent) :
    ResponsesPhase.advance (.going seq index closed item) ⟨seq, ev⟩ =
      ResponsesPhase.advanceEvent (seq + 1) index closed item ev := by
  simp [ResponsesPhase.advance]

variable (s : ResponsesState)

theorem closeCurrent_advances : s.Advances s.closeCurrent := by
  unfold closeCurrent
  match current : s.current with
  | none => exact Server.Advances.refl s
  | some (.reasoning id text) =>
    simp [closeItem, current]
  | some (.message id text) =>
    simp only
    split_ifs
    · simp [closeItem, current]
    · simp [closeItem, current]
  | some (.functionCall id callId name args ordinal) =>
    simp [closeItem, current]

@[simp] theorem current_closeCurrent : s.closeCurrent.1.current = none := by
  unfold closeCurrent
  match current : s.current with
  | none => exact current
  | some (.reasoning id text) => rfl
  | some (.message id text) => rfl
  | some (.functionCall id callId name args ordinal) => rfl

theorem closeCurrent_then {f : ResponsesState → ResponsesStep}
    (later : ∀ s' : ResponsesState, s'.current = none → s'.Advances (f s')) :
    s.Advances ((f s.closeCurrent.1).1, s.closeCurrent.2 ++ (f s.closeCurrent.1).2) := by
  apply Server.Advances.trans s.closeCurrent_advances
  exact later s.closeCurrent.1 s.current_closeCurrent

theorem openReasoning_advances : s.Advances (s.openReasoning setup) := by
  apply s.closeCurrent_then (f := fun s =>
    let id := "rs_".toList ++ setup.uuid s.drawn
    let (s, frames) := s.send [.outputItemAdded s.outputIndex (.reasoning id [] .inProgress)]
    ({ s with current := some (.reasoning id []), drawn := s.drawn + 1 }, frames))
  intro s' none_
  simp [none_]

theorem openMessage_advances : s.Advances (s.openMessage setup) := by
  apply s.closeCurrent_then (f := fun s =>
    let id := "msg_".toList ++ setup.uuid s.drawn
    let (s, frames) := s.send [.outputItemAdded s.outputIndex (.message id [] .inProgress),
      .contentPartAdded id s.outputIndex 0 []]
    ({ s with current := some (.message id []), drawn := s.drawn + 1 }, frames))
  intro s' none_
  simp [none_]

theorem openFunctionCall_advances (setup : ResponsesSetup) (s : ResponsesState) (name : List Char) (ordinal : Int) :
    s.Advances (s.openFunctionCall setup name ordinal) := by
  apply s.closeCurrent_then (f := fun s =>
    let id := "fc_".toList ++ setup.uuid s.drawn
    let callId := "call_".toList ++ (setup.uuid (s.drawn + 1)).take 24
    let (s, frames) := s.send
      [.outputItemAdded s.outputIndex (.functionCall id callId name [] .inProgress)]
    ({ s with current := some (.functionCall id callId name [] ordinal), drawn := s.drawn + 2 },
      frames))
  intro s' none_
  simp [none_]

theorem addText_advances (text : List Char) : s.Advances (s.addText text) := by
  unfold addText
  match current : s.current with
  | none => exact Server.Advances.refl s
  | some (.reasoning id before) =>
    simp [current]
  | some (.message id before) =>
    simp [current]
  | some (.functionCall id callId name args ordinal) => exact Server.Advances.refl s

theorem addArgs_advances (fragment : List Char) :
    s.Advances (s.addArgs fragment) := by
  unfold addArgs
  match current : s.current with
  | none => exact Server.Advances.refl s
  | some (.reasoning id before) => exact Server.Advances.refl s
  | some (.message id before) => exact Server.Advances.refl s
  | some (.functionCall id callId name args ordinal) =>
    simp [current]

theorem topUp_advances (final : List Char) : s.Advances (s.topUp final) := by
  unfold topUp
  match current : s.current with
  | none => exact Server.Advances.refl s
  | some (.reasoning id before) => exact Server.Advances.refl s
  | some (.message id before) => exact Server.Advances.refl s
  | some (.functionCall id callId name args ordinal) =>
    simp only
    split_ifs
    · simp [current]
    · simp [current]

theorem toolCall_advances (call : ToolCallItem) :
    s.Advances (s.toolCall setup call) := by
  unfold toolCall
  split_ifs with here
  · exact Server.Advances.trans (s.topUp_advances call.parameters)
      (closeCurrent_advances (s.topUp call.parameters).1)
  · have opened := s.openFunctionCall_advances setup (call.name.getD []) call.toolIndex
    have sent := Server.Advances.trans opened (addArgs_advances _ call.parameters)
    exact Server.Advances.trans sent (closeCurrent_advances _)

theorem toolCalls_advances (calls : List ToolCallItem) :
    s.Advances (toolCalls setup calls s) := by
  induction calls generalizing s with
  | nil => exact Server.Advances.refl s
  | cons call calls ih => exact Server.Advances.trans (s.toolCall_advances call) (ih _)

theorem handle_advances {item : StreamItem} (going : item.Going) (s : ResponsesState) :
    s.Advances (s.handle setup item) := by
  unfold handle
  match item with
  | .keepalive =>
    simp [responseObj]
  | .event (.reasoningDelta text) =>
    simp only
    split_ifs with empty here
    · exact Server.Advances.refl s
    · exact s.addText_advances text
    · exact Server.Advances.trans s.openReasoning_advances (addText_advances _ text)
  | .event (.contentDelta text) =>
    simp only
    split_ifs with empty here
    · exact Server.Advances.refl s
    · exact s.addText_advances text
    · exact Server.Advances.trans s.openMessage_advances (addText_advances _ text)
  | .event (.toolCallStart toolIndex name stable) => exact s.openFunctionCall_advances setup _ toolIndex
  | .event (.toolCallArgsDelta toolIndex fragment) => exact s.addArgs_advances fragment
  | .event (.toolCallsDelta calls) => exact s.toolCalls_advances calls
  | .event (.genDone ..) => exact absurd going (by simp [StreamItem.Going, GenEvent.isDone])

theorem done_ends {done : GenEvent} (isDone : done.isDone = true) (s : ResponsesState) :
    (s.handle setup (.event done)).2.foldlM ResponsesPhase.advance s.phase = some .ended := by
  match done, isDone with
  | .genDone finishReason promptTokens completionTokens matchedStop cachedTokens, _ =>
    unfold handle genDone
    simp only
    -- The reason and the usage are known before the current item is done.
    have closes := closeCurrent_advances { s with
      finishReason := finishReason, usagePt := promptTokens, usageCt := completionTokens
      usageCached := if setup.cacheReport then cachedTokens else 0 }
    rw [List.foldlM_append, show List.foldlM _ s.phase _ = _ from closes]
    by_cases cut : finishReason = lengthReason
    · simp [cut, responseObj]
    · simp [cut, responseObj]

theorem fail_ends (code message : List Char) :
    (s.fail setup code message).foldlM ResponsesPhase.advance s.phase = some .ended := by
  unfold fail
  simp only
  rw [List.foldlM_append, show s.closeCurrent.2.foldlM _ _ = _ from s.closeCurrent_advances]
  simp [responseObj]

theorem error_ends (error : StreamError) (s : ResponsesState) :
    (s.finish setup (.raised error)).foldlM ResponsesPhase.advance s.phase = some .ended := by
  match error with
  | .generation message none => exact s.fail_ends serverError message
  | .generation message (some code) => exact s.fail_ends _ message
  | .timeout message => exact s.fail_ends serverError message
  | .other message => exact s.fail_ends serverError message

end ResponsesState

theorem responsesStreamGenerator_keeps (setup : ResponsesSetup) :
    (responsesStreamGenerator setup).Keeps ResponsesPhase.advance .fresh .ended
      ResponsesState.phase where
  begins := rfl
  going _ s going := s.handle_advances going
  done _ s isDone := ResponsesState.done_ends isDone s
  exhausted _ := rfl
  raised error s := ResponsesState.error_ends error s
  keepalive _ := List.cons_ne_nil _ _
  stops _ := rfl

/-! ## Well-formed streams -/

def WellFormedStreams (anthropic : AnthropicSetup) (responses : ResponsesSetup) (source : EventStream) :
    Prop :=
  (anthropicEventStream anthropic).WellFormed AnthropicPhase.advance .fresh .ended source ∧
    (responsesStreamGenerator responses).WellFormed ResponsesPhase.advance .fresh .ended source

/-- A request of the Messages API. -/
def noteAnthropic : AnthropicSetup :=
  { model := "m".toList, uid := ['7'], cacheReport := false, uuid := fun n => Nat.toDigits 16 n }

def noteResponses : ResponsesSetup :=
  { responseId := "resp_7".toList, created := 0, model := "m".toList, cacheReport := true
    uuid := fun n => Nat.toDigits 16 n }

/-- Reasoning, an open call with a fragment, silence, and the close of the call with another one. -/
def noteEvents : EventStream :=
  { events := [(2, .reasoningDelta ['r']), (0, .toolCallStart 0 (some ['f']) true),
      (1, .toolCallArgsDelta 0 ['\x7b']), (0, .toolCallsDelta [⟨0, some ['f'], "\x7b\x7d".toList⟩,
        ⟨1, some ['g'], "\x7b\x7d".toList⟩]), (0, .genDone "length".toList 5 3 none 2)]
    silence := 0, ending := .exhausted }

def timedOut : EventStream :=
  { events := [(0, .contentDelta ['h'])], silence := 0, ending := .raised (.timeout "engine".toList) }

end FreeSwarm.Server
