import FreeSwarm.Server.Generation
import FreeSwarm.Server.ResponsesStream

/-!
# Tool blocks of event streams

What a client puts together of the tool calls in a stream: one block for each call that is opened, with
its name and with the fragments of its arguments one behind the other. Both formatters show the blocks
of one small machine over the events, which knows nothing of frames.
-/

namespace FreeSwarm.Server

/-- A block: the name of the call, and the arguments that were sent. -/
structure ToolBlock where
  name : Option (List Char)
  args : List Char
  deriving DecidableEq

/-! ## The blocks of the events -/

/-- What the formatters differ in. -/
structure ToolStyle where
  forwardsAll : Bool
  shownName : Option (List Char) → Option (List Char)

structure OpenBlock where
  ordinal : Int
  forwards : Bool
  block : ToolBlock

/-- The blocks that the events have made so far. -/
structure ToolBlocks where
  closed : List ToolBlock
  current : Option OpenBlock

namespace ToolBlocks

def start : ToolBlocks := { closed := [], current := none }

def all (t : ToolBlocks) : List ToolBlock := t.closed ++ (t.current.map (·.block)).toList

def close (t : ToolBlocks) : ToolBlocks := { closed := t.all, current := none }

def openBlock (name : Option (List Char)) (ordinal : Int) (forwards : Bool) (t : ToolBlocks) :
    ToolBlocks :=
  { closed := t.all, current := some ⟨ordinal, forwards, ⟨name, []⟩⟩ }

def extend (fragment : List Char) (t : ToolBlocks) : ToolBlocks :=
  match t.current with
  | none => t
  | some b => { t with current := some { b with block := { b.block with args := b.block.args ++ fragment } } }

/-- What was not sent of the final arguments goes into the open block, when they go on from what was
sent. -/
def topUp (final : List Char) (t : ToolBlocks) : ToolBlocks :=
  match t.current with
  | none => t
  | some b =>
    let remainder := final.drop b.block.args.length
    if b.block.args <+: final ∧ remainder ≠ [] then t.extend remainder else t

/-- A complete call: the end of the open block if it is its own, else a block of its own. -/
def call (style : ToolStyle) (t : ToolBlocks) (call : ToolCallItem) : ToolBlocks :=
  if t.current.map (·.ordinal) = some call.toolIndex then (t.topUp call.parameters).close
  else ((t.openBlock (style.shownName call.name) call.toolIndex true).extend call.parameters).close

def step (style : ToolStyle) (t : ToolBlocks) (ev : GenEvent) : ToolBlocks :=
  match ev with
  | .reasoningDelta text => if text = [] then t else t.close
  | .contentDelta text => if text = [] then t else t.close
  | .toolCallStart toolIndex name stable =>
    t.openBlock (style.shownName name) toolIndex (style.forwardsAll || stable)
  | .toolCallArgsDelta _ fragment =>
    if (t.current.map (·.forwards)) = some true then t.extend fragment else t
  | .toolCallsDelta calls => calls.foldl (call style) t
  | .genDone .. => t.close

def run (style : ToolStyle) (events : List GenEvent) (t : ToolBlocks) : ToolBlocks :=
  events.foldl (step style) t

variable (style : ToolStyle) (t : ToolBlocks)

@[simp] theorem all_close : t.close.all = t.all := by simp [close, all]

@[simp] theorem current_close : t.close.current = none := rfl

theorem close_of_none {t : ToolBlocks} (none_ : t.current = none) : t.close = t := by
  obtain ⟨closed, current⟩ := t
  obtain rfl : current = none := none_
  simp [close, all]

@[simp] theorem current_extend (fragment : List Char) (t : ToolBlocks) :
    (t.extend fragment).current = t.current.map fun b =>
      { b with block := { b.block with args := b.block.args ++ fragment } } := by
  unfold extend
  cases current : t.current with
  | none => exact current
  | some b => rfl

theorem run_append (events events' : List GenEvent) (t : ToolBlocks) :
    run style (events ++ events') t = run style events' (run style events t) := List.foldl_append

@[simp] theorem run_nil : run style [] t = t := rfl

@[simp] theorem run_cons (ev : GenEvent) (events : List GenEvent) (t : ToolBlocks) :
    run style (ev :: events) t = run style events (t.step style ev) := rfl

end ToolBlocks

def StreamItem.event? : StreamItem → Option GenEvent
  | .keepalive => none
  | .event ev => some ev

/-! ## The blocks of a Messages stream -/

structure NumberedBlock where
  index : Nat
  block : ToolBlock

def extendAt (index : Nat) (fragment : List Char) (blocks : List NumberedBlock) : List NumberedBlock :=
  blocks.map fun b =>
    if b.index = index then { b with block := { b.block with args := b.block.args ++ fragment } } else b

/-- What a frame tells of the tool blocks. -/
def AnthropicStreamEvent.collect (blocks : List NumberedBlock) :
    AnthropicStreamEvent → List NumberedBlock
  | contentBlockStart index (.toolUse _ name) => blocks ++ [⟨index, ⟨name, []⟩⟩]
  | contentBlockDelta index (.inputJsonDelta partialJson) => extendAt index partialJson blocks
  | _ => blocks

def ResponsesFrame.collect (blocks : List NumberedBlock) (frame : ResponsesFrame) :
    List NumberedBlock :=
  match frame.event with
  | .outputItemAdded index (.functionCall _ _ name _ _) => blocks ++ [⟨index, ⟨some name, []⟩⟩]
  | .functionCallArgumentsDelta _ index delta => extendAt index delta blocks
  | _ => blocks

def anthropicToolUses (frames : List AnthropicStreamEvent) : List ToolBlock :=
  (frames.foldl AnthropicStreamEvent.collect []).map (·.block)

def responsesFunctionCalls (frames : List ResponsesFrame) : List ToolBlock :=
  (frames.foldl ResponsesFrame.collect []).map (·.block)

/-- The blocks that are shown are those that the events have made: the closed ones have smaller numbers
than the current block, and the open one has its number. -/
def ShownAt (index : Nat) (blocks : List NumberedBlock) (t : ToolBlocks) : Prop :=
  ∃ front : List NumberedBlock, (∀ b ∈ front, b.index < index) ∧ front.map (·.block) = t.closed ∧
    blocks = front ++ (t.current.map fun b => ⟨index, b.block⟩).toList

namespace ShownAt
variable {index : Nat} {blocks : List NumberedBlock} {t : ToolBlocks}

theorem map_block (shown : ShownAt index blocks t) : blocks.map (·.block) = t.all := by
  obtain ⟨front, -, closed, rfl⟩ := shown
  rw [List.map_append, closed, ToolBlocks.all]
  cases t.current <;> rfl

theorem close (shown : ShownAt index blocks t) : ShownAt (index + 1) blocks t.close := by
  have all := shown.map_block
  obtain ⟨front, below, -, rfl⟩ := shown
  refine ⟨_, ?_, all, (List.append_nil _).symm⟩
  intro b mem
  rcases List.mem_append.mp mem with mem | mem
  · exact Nat.lt_succ_of_lt (below b mem)
  · cases current : t.current with
    | none => simp [current] at mem
    | some c =>
      obtain rfl : b = ⟨index, c.block⟩ := by simpa [current] using mem
      exact Nat.lt_succ_self index

theorem openBlock (shown : ShownAt index blocks t) (none_ : t.current = none)
    (name : Option (List Char)) (ordinal : Int) (forwards : Bool) :
    ShownAt index (blocks ++ [⟨index, ⟨name, []⟩⟩]) (t.openBlock name ordinal forwards) := by
  obtain ⟨front, below, closed, rfl⟩ := shown
  refine ⟨front, below, ?_, ?_⟩
  · simp [ToolBlocks.openBlock, ToolBlocks.all, none_, closed]
  · simp [ToolBlocks.openBlock, none_]

theorem extend (shown : ShownAt index blocks t) (fragment : List Char) :
    ShownAt index (extendAt index fragment blocks) (t.extend fragment) := by
  obtain ⟨front, below, closed, rfl⟩ := shown
  have kept : extendAt index fragment front = front := by
    unfold extendAt
    conv_rhs => rw [← List.map_id front]
    apply List.map_congr_left
    intro b mem
    rw [if_neg (below b mem).ne, id]
  refine ⟨front, below, ?_, ?_⟩
  · unfold ToolBlocks.extend
    cases t.current <;> exact closed
  · rw [ToolBlocks.current_extend, extendAt, List.map_append]
    rw [extendAt] at kept
    rw [kept]
    cases t.current with
    | none => rfl
    | some b => simp

end ShownAt

section
variable {σ φ : Type} {collect : List NumberedBlock → φ → List NumberedBlock}
  {Shows : σ → List NumberedBlock → ToolBlocks → Prop}

def ShowsStep (collect : List NumberedBlock → φ → List NumberedBlock)
    (Shows : σ → List NumberedBlock → ToolBlocks → Prop) (s : σ) (t t' : ToolBlocks)
    (step : σ × List φ) : Prop :=
  ∀ blocks, Shows s blocks t → Shows step.1 (step.2.foldl collect blocks) t'

theorem ShowsStep.refl (s : σ) (t : ToolBlocks) : ShowsStep collect Shows s t t (s, []) :=
  fun _ shows => shows

theorem ShowsStep.trans {s s' s'' : σ} {t t' t'' : ToolBlocks} {frames more : List φ}
    (first : ShowsStep collect Shows s t t' (s', frames))
    (second : ShowsStep collect Shows s' t' t'' (s'', more)) :
    ShowsStep collect Shows s t t'' (s'', frames ++ more) := by
  intro blocks shows
  rw [List.foldl_append]
  exact second _ (first blocks shows)

/-- What a formatter has to do for its frames to show the blocks of the events. -/
structure Formatter.Collects (formatter : Formatter σ φ)
    (collect : List NumberedBlock → φ → List NumberedBlock) (style : ToolStyle)
    (Shows : σ → List NumberedBlock → ToolBlocks → Prop) : Prop where
  begins : Shows formatter.start (formatter.prologue.foldl collect []) .start
  event : ∀ s t ev, ShowsStep collect Shows s t (t.step style ev) (formatter.handle (.event ev) s)
  keepalive : ∀ s t, ShowsStep collect Shows s t t (formatter.handle .keepalive s)
  finish : ∀ s t ending blocks, Shows s blocks t →
    ((formatter.finish ending s).foldl collect blocks).map (·.block) = t.all
  shown : ∀ s t blocks, Shows s blocks t → blocks.map (·.block) = t.all

variable {formatter : Formatter σ φ} {style : ToolStyle}

theorem Formatter.Collects.items (collects : formatter.Collects collect style Shows)
    (items : List StreamItem) (s : σ) (t : ToolBlocks) :
    ShowsStep collect Shows s t (t.run style (items.filterMap StreamItem.event?))
      (formatAll formatter.handle items s) := by
  induction items generalizing s t with
  | nil => exact ShowsStep.refl s t
  | cons item items ih =>
    match item with
    | .keepalive => exact ShowsStep.trans (collects.keepalive s t) (ih _ _)
    | .event ev => exact ShowsStep.trans (collects.event s t ev) (ih _ _)

theorem Formatter.Collects.frames (collects : formatter.Collects collect style Shows)
    (items : List StreamItem) (ended : Option Ending) :
    ((formatter.frames items ended).foldl collect []).map (·.block) =
      (ToolBlocks.start.run style (items.filterMap StreamItem.event?)).all := by
  have shows := collects.items items formatter.start .start _ collects.begins
  simp only [Formatter.frames, List.foldl_append]
  cases ended with
  | none => exact collects.shown _ _ _ shows
  | some ending => exact collects.finish _ _ ending _ shows

end

namespace AnthropicState

/-- How the formatter shows calls. -/
def toolStyle : ToolStyle := { forwardsAll := false, shownName := id }

/-- The blocks that were sent are those that the events have made, and the open one is known. -/
structure Shows (s : AnthropicState) (blocks : List NumberedBlock) (t : ToolBlocks) : Prop where
  shown : ShownAt s.blockIndex blocks t
  idle : t.current = none → s.blockOpen ≠ some .tool
  busy : ∀ b, t.current = some b → s.blockOpen = some .tool ∧ s.toolOrdinal = some b.ordinal ∧
    s.toolStable = b.forwards ∧ s.toolArgsSent = b.block.args

abbrev ShowsStep (s : AnthropicState) (t t' : ToolBlocks) (step : AnthropicStep) : Prop :=
  Server.ShowsStep AnthropicStreamEvent.collect Shows s t t' step

variable {setup : AnthropicSetup} {t : ToolBlocks}

variable (s : AnthropicState)

theorem stopBlock_shows : s.ShowsStep t t.close s.stopBlock := by
  intro blocks shows
  have same : s.stopBlock.2.foldl AnthropicStreamEvent.collect blocks = blocks := by
    unfold stopBlock
    split_ifs <;> rfl
  rw [same]
  exact ⟨shows.shown.close, fun _ => by simp [stopBlock], fun b none_ => by simp at none_⟩

theorem stopAny_shows : s.ShowsStep t t.close s.stopAny := by
  unfold stopAny
  split_ifs with some_
  · exact s.stopBlock_shows
  · intro blocks shows
    have none_ : t.current = none := by
      cases current : t.current with
      | none => rfl
      | some b => exact absurd (by simp [(shows.busy b current).1]) some_
    rw [ToolBlocks.close_of_none none_]
    exact shows

theorem textual_shows {kind : BlockKind} {block : AnthropicContentBlock}
    {delta : AnthropicDelta} (other : kind ≠ .tool) (hblock : block.kind = kind)
    (hdelta : delta.kind = kind) : s.ShowsStep t t.close (s.textual kind block delta) := by
  have started : ∀ index blocks, AnthropicStreamEvent.collect blocks
      (.contentBlockStart index block) = blocks := by
    intro index blocks
    match block, hblock with
    | .text text, _ => rfl
    | .thinking text, _ => rfl
    | .toolUse id name, same => exact absurd same.symm other
  have added : ∀ index blocks, AnthropicStreamEvent.collect blocks
      (.contentBlockDelta index delta) = blocks := by
    intro index blocks
    match delta, hdelta with
    | .textDelta text, _ => rfl
    | .thinkingDelta text, _ => rfl
    | .signatureDelta text, _ => rfl
    | .inputJsonDelta part, same => exact absurd same.symm other
  unfold textual
  split_ifs with open_
  · intro blocks shows
    have none_ : t.current = none := by
      cases current : t.current with
      | none => rfl
      | some b => exact absurd (Option.some.inj (open_.symm.trans (shows.busy b current).1)) other
    rw [ToolBlocks.close_of_none none_]
    simpa only [List.foldl_cons, List.foldl_nil, added] using shows
  · apply Server.ShowsStep.trans s.stopAny_shows
    intro blocks shows
    simp only [List.foldl_cons, List.foldl_nil, started, added]
    exact ⟨shows.shown, fun _ => by simpa using other, fun b none_ => by simp at none_⟩

theorem openTool_shows (setup : AnthropicSetup) (s : AnthropicState) (name : Option (List Char)) (ordinal : Int)
    (stable : Bool) :
    s.ShowsStep t (t.openBlock name ordinal stable) (s.openTool setup name ordinal stable) := by
  have opened : t.openBlock name ordinal stable = t.close.openBlock name ordinal stable := by
    simp [ToolBlocks.openBlock]
  rw [opened]
  apply Server.ShowsStep.trans s.stopAny_shows
  intro blocks shows
  refine ⟨shows.shown.openBlock rfl name ordinal stable, fun none_ => by simp [ToolBlocks.openBlock]
    at none_, fun b current => ?_⟩
  obtain rfl : ⟨ordinal, stable, ⟨name, []⟩⟩ = b := Option.some.inj current
  exact ⟨rfl, rfl, rfl, rfl⟩

theorem toolArgsDelta_shows (fragment : List Char) :
    s.ShowsStep t (t.extend fragment) (s.toolArgsDelta fragment) := by
  intro blocks shows
  refine ⟨shows.shown.extend fragment, fun none_ => ?_, fun b current => ?_⟩
  · exact shows.idle (by simpa using none_)
  · rw [ToolBlocks.current_extend] at current
    obtain ⟨b', before, rfl⟩ := Option.map_eq_some_iff.mp current
    obtain ⟨open_, ordinal, stable, sent⟩ := shows.busy b' before
    exact ⟨open_, ordinal, stable, by rw [toolArgsDelta, sent]⟩

theorem topUp_shows (final : List Char) {b : OpenBlock}
    (current : t.current = some b) : s.ShowsStep t (t.topUp final) (s.topUp final) := by
  intro blocks shows
  have sent := (shows.busy b current).2.2.2
  unfold topUp ToolBlocks.topUp
  rw [current]
  simp only [sent]
  split_ifs
  · exact s.toolArgsDelta_shows _ blocks shows
  · exact shows

theorem toolCall_shows (call : ToolCallItem) :
    s.ShowsStep t (t.call toolStyle call) (s.toolCall setup call) := by
  intro blocks shows
  have own : (s.blockOpen = some .tool ∧ s.toolOrdinal = some call.toolIndex) ↔
      t.current.map (·.ordinal) = some call.toolIndex := by
    cases current : t.current with
    | none => simp [shows.idle current]
    | some b =>
      obtain ⟨open_, ordinal, -, -⟩ := shows.busy b current
      simp [open_, ordinal]
  unfold toolCall ToolBlocks.call
  simp only [own]
  split_ifs with here
  · obtain ⟨b, current, -⟩ := Option.map_eq_some_iff.mp here
    have closed := @stopBlock_shows (t.topUp call.parameters) (s.topUp call.parameters).1
    exact Server.ShowsStep.trans (s.topUp_shows call.parameters current) closed blocks shows
  · have opened := s.openTool_shows (t := t) setup call.name call.toolIndex true
    have sent := Server.ShowsStep.trans opened (toolArgsDelta_shows _ call.parameters)
    exact Server.ShowsStep.trans sent (stopBlock_shows _) blocks shows

theorem toolCalls_shows (calls : List ToolCallItem) :
    s.ShowsStep t (calls.foldl (ToolBlocks.call toolStyle) t) (toolCalls setup calls s) := by
  induction calls generalizing s t with
  | nil => exact Server.ShowsStep.refl s _
  | cons call calls ih => exact Server.ShowsStep.trans (s.toolCall_shows call) (ih _)

theorem handle_shows (ev : GenEvent) :
    s.ShowsStep t (t.step toolStyle ev) (s.handle setup (.event ev)) := by
  unfold handle ToolBlocks.step
  match ev with
  | .reasoningDelta text =>
    simp only
    split_ifs
    · exact Server.ShowsStep.refl s _
    · exact s.textual_shows (by decide) rfl rfl
  | .contentDelta text =>
    simp only
    split_ifs
    · exact Server.ShowsStep.refl s _
    · exact s.textual_shows (by decide) rfl rfl
  | .toolCallStart toolIndex name stable => exact s.openTool_shows setup name toolIndex stable
  | .toolCallArgsDelta toolIndex fragment =>
    intro blocks shows
    have dropped : (s.blockOpen ≠ some .tool ∨ s.toolStable = false) ↔
        ¬ t.current.map (·.forwards) = some true := by
      cases current : t.current with
      | none => simp [shows.idle current]
      | some b =>
        obtain ⟨open_, -, stable, -⟩ := shows.busy b current
        simp [open_, stable]
    simp only [dropped, ite_not]
    split_ifs
    · exact s.toolArgsDelta_shows fragment blocks shows
    · exact shows
  | .toolCallsDelta calls => exact s.toolCalls_shows calls
  | .genDone finishReason promptTokens completionTokens matchedStop cachedTokens =>
    exact Server.ShowsStep.trans s.stopAny_shows fun _ shows => shows

theorem finish_shows (ending : Ending) (blocks : List NumberedBlock)
    (shows : s.Shows blocks t) :
    ((s.finish ending).foldl AnthropicStreamEvent.collect blocks).map (·.block) = t.all := by
  have stopped := (s.stopAny_shows blocks shows).shown.map_block
  rw [ToolBlocks.all_close] at stopped
  unfold finish
  match ending with
  | .exhausted => exact shows.shown.map_block
  | .raised (.generation message code) => simpa only [List.foldl_append, List.foldl_cons,
      List.foldl_nil, AnthropicStreamEvent.collect] using stopped
  | .raised (.timeout message) => simpa only [List.foldl_append, List.foldl_cons,
      List.foldl_nil, AnthropicStreamEvent.collect] using stopped
  | .raised (.other message) => simpa only [List.foldl_append, List.foldl_cons,
      List.foldl_nil, AnthropicStreamEvent.collect] using stopped

end AnthropicState

theorem anthropicEventStream_collects (setup : AnthropicSetup) :
    (anthropicEventStream setup).Collects AnthropicStreamEvent.collect AnthropicState.toolStyle
      AnthropicState.Shows where
  begins := ⟨⟨[], by simp, rfl, rfl⟩, fun _ => by simp [anthropicEventStream, AnthropicState.start],
    fun b none_ => by simp [ToolBlocks.start] at none_⟩
  event s _ ev := s.handle_shows ev
  keepalive _ _ := fun _ shows => shows
  finish s _ ending blocks shows := s.finish_shows ending blocks shows
  shown _ _ _ shows := shows.shown.map_block

/-! ## The calls of a Responses stream -/

namespace ResponsesState

/-- How the formatter shows calls. -/
def toolStyle : ToolStyle := { forwardsAll := true, shownName := fun name => some (name.getD []) }

/-- The blocks that were sent are those that the events have made, and the open one is known. -/
structure Shows (s : ResponsesState) (blocks : List NumberedBlock) (t : ToolBlocks) : Prop where
  shown : ShownAt s.outputIndex blocks t
  idle : t.current = none → s.ordinal = none
  busy : ∀ b, t.current = some b → b.forwards = true ∧ ∃ id callId name,
    s.current = some (.functionCall id callId name b.block.args b.ordinal)

abbrev ShowsStep (s : ResponsesState) (t t' : ToolBlocks) (step : ResponsesStep) : Prop :=
  Server.ShowsStep ResponsesFrame.collect Shows s t t' step

variable {setup : ResponsesSetup} {t : ToolBlocks}

variable (s : ResponsesState)

theorem collect_close (blocks : List NumberedBlock) :
    s.closeCurrent.2.foldl ResponsesFrame.collect blocks = blocks := by
  unfold closeCurrent
  match s.current with
  | none => rfl
  | some (.reasoning id text) => rfl
  | some (.message id text) => rfl
  | some (.functionCall id callId name args ordinal) => rfl

theorem outputIndex_close {s : ResponsesState} (some_ : s.current.isSome) :
    s.closeCurrent.1.outputIndex = s.outputIndex + 1 := by
  unfold closeCurrent
  match current : s.current with
  | none => simp [current] at some_
  | some (.reasoning id text) => rfl
  | some (.message id text) => rfl
  | some (.functionCall id callId name args ordinal) => rfl

theorem ordinal_of_none {s : ResponsesState} (none_ : s.current = none) : s.ordinal = none := by
  simp [ordinal, none_]

theorem close_shown {s : ResponsesState} {blocks : List NumberedBlock} (some_ : s.current.isSome)
    (shown : ShownAt s.outputIndex blocks t) :
    s.closeCurrent.1.Shows (s.closeCurrent.2.foldl ResponsesFrame.collect blocks) t.close := by
  rw [collect_close]
  refine ⟨?_, fun _ => ordinal_of_none s.current_closeCurrent, fun b none_ => by simp at none_⟩
  rw [outputIndex_close some_]
  exact shown.close

theorem closeCurrent_shows : s.ShowsStep t t.close s.closeCurrent := by
  intro blocks shows
  by_cases some_ : s.current.isSome
  · exact close_shown some_ shows.shown
  · have none_ : s.current = none := by simpa using some_
    have idle : t.current = none := by
      cases current : t.current with
      | none => rfl
      | some b =>
        obtain ⟨-, id, callId, name, here⟩ := shows.busy b current
        simp [here] at some_
    have nothing : s.closeCurrent = (s, []) := by simp [closeCurrent, none_]
    rw [nothing, ToolBlocks.close_of_none idle]
    exact shows

theorem openReasoning_shows : s.ShowsStep t t.close (s.openReasoning setup) := by
  apply Server.ShowsStep.trans s.closeCurrent_shows
  intro blocks shows
  exact ⟨shows.shown, fun _ => rfl, fun b none_ => by simp at none_⟩

theorem openMessage_shows : s.ShowsStep t t.close (s.openMessage setup) := by
  apply Server.ShowsStep.trans s.closeCurrent_shows
  intro blocks shows
  exact ⟨shows.shown, fun _ => rfl, fun b none_ => by simp at none_⟩

theorem openFunctionCall_shows (setup : ResponsesSetup) (s : ResponsesState) (name : List Char) (ordinal : Int) :
    s.ShowsStep t (t.openBlock (some name) ordinal true) (s.openFunctionCall setup name ordinal) := by
  have opened : t.openBlock (some name) ordinal true = t.close.openBlock (some name) ordinal true := by
    simp [ToolBlocks.openBlock]
  rw [opened]
  apply Server.ShowsStep.trans s.closeCurrent_shows
  intro blocks shows
  refine ⟨shows.shown.openBlock rfl (some name) ordinal true, fun none_ => by
    simp [ToolBlocks.openBlock] at none_, fun b current => ?_⟩
  obtain rfl : ⟨ordinal, true, ⟨some name, []⟩⟩ = b := Option.some.inj current
  exact ⟨rfl, _, _, name, rfl⟩

theorem addText_shows (text : List Char) : s.ShowsStep t t (s.addText text) := by
  unfold addText
  match current : s.current with
  | none => exact Server.ShowsStep.refl s t
  | some (.functionCall id callId name args ordinal) => exact Server.ShowsStep.refl s t
  | some (.reasoning id before) =>
    intro blocks shows
    refine ⟨shows.shown, fun _ => rfl, fun b here => ?_⟩
    obtain ⟨-, id', callId, name, call⟩ := shows.busy b here
    exact absurd (current.symm.trans call) (by simp)
  | some (.message id before) =>
    intro blocks shows
    refine ⟨shows.shown, fun _ => rfl, fun b here => ?_⟩
    obtain ⟨-, id', callId, name, call⟩ := shows.busy b here
    exact absurd (current.symm.trans call) (by simp)

theorem textual_shows {here : Bool} {opening : ResponsesStep} (text : List Char)
    (opens : s.ShowsStep t t.close opening) (other : here = true → s.ordinal = none ∧ s.current.isSome) :
    s.ShowsStep t t.close
      (((if here then (s, []) else opening).1.addText text).1,
        (if here then (s, []) else opening).2 ++
          ((if here then (s, []) else opening).1.addText text).2) := by
  cases here with
  | false => exact Server.ShowsStep.trans opens (addText_shows _ text)
  | true =>
    intro blocks shows
    have none_ : t.current = none := by
      cases current : t.current with
      | none => rfl
      | some b =>
        obtain ⟨-, id, callId, name, call⟩ := shows.busy b current
        exact absurd (other rfl).1 (by simp [ordinal, call])
    rw [ToolBlocks.close_of_none none_]
    exact s.addText_shows text blocks shows

theorem other_of_inReasoning {s : ResponsesState} (here : s.inReasoning = true) :
    s.ordinal = none ∧ s.current.isSome := by
  unfold inReasoning at here
  unfold ordinal
  split at here
  · rename_i current
    simp [current]
  · simp at here

theorem other_of_inMessage {s : ResponsesState} (here : s.inMessage = true) :
    s.ordinal = none ∧ s.current.isSome := by
  unfold inMessage at here
  unfold ordinal
  split at here
  · rename_i current
    simp [current]
  · simp at here

theorem addArgs_shows (fragment : List Char) :
    s.ShowsStep t (t.extend fragment) (s.addArgs fragment) := by
  intro blocks shows
  cases current : t.current with
  | none =>
    have same : t.extend fragment = t := by simp [ToolBlocks.extend, current]
    have idle := shows.idle current
    have dropped : s.addArgs fragment = (s, []) := by
      unfold addArgs
      split
      · rename_i call
        simp [ordinal, call] at idle
      · rfl
    rw [same, dropped]
    exact shows
  | some b =>
    obtain ⟨forwards, id, callId, name, call⟩ := shows.busy b current
    have sent : s.addArgs fragment = ({ s with
        seq := s.seq + 1
        current := some (.functionCall id callId name (b.block.args ++ fragment) b.ordinal) },
        [⟨s.seq, .functionCallArgumentsDelta id s.outputIndex fragment⟩]) := by
      simp [addArgs, call, send, numberedFrames]
    rw [sent]
    refine ⟨shows.shown.extend fragment, fun none_ => by simp [current] at none_, fun b' here => ?_⟩
    rw [ToolBlocks.current_extend, current] at here
    cases here
    exact ⟨forwards, id, callId, name, rfl⟩

theorem topUp_close_shows (final : List Char) {b : OpenBlock}
    (current : t.current = some b) :
    s.ShowsStep t (t.topUp final).close
      ((s.topUp final).1.closeCurrent.1, (s.topUp final).2 ++ (s.topUp final).1.closeCurrent.2) := by
  intro blocks shows
  obtain ⟨-, id, callId, name, call⟩ := shows.busy b current
  rw [List.foldl_append]
  apply close_shown
  · simp [topUp, call]
  · unfold topUp ToolBlocks.topUp
    rw [call, current]
    simp only
    split_ifs
    · exact shows.shown.extend _
    · exact shows.shown

theorem toolCall_shows (call : ToolCallItem) :
    s.ShowsStep t (t.call toolStyle call) (s.toolCall setup call) := by
  intro blocks shows
  have own : s.ordinal = some call.toolIndex ↔ t.current.map (·.ordinal) = some call.toolIndex := by
    cases current : t.current with
    | none => simp [shows.idle current]
    | some b =>
      obtain ⟨-, id, callId, name, here⟩ := shows.busy b current
      simp [ordinal, here]
  unfold toolCall ToolBlocks.call
  simp only [own]
  split_ifs with here
  · obtain ⟨b, current, -⟩ := Option.map_eq_some_iff.mp here
    exact s.topUp_close_shows call.parameters current blocks shows
  · have opened := s.openFunctionCall_shows (t := t) setup (call.name.getD [])
      call.toolIndex
    have sent := Server.ShowsStep.trans opened (addArgs_shows _ call.parameters)
    exact Server.ShowsStep.trans sent (closeCurrent_shows _) blocks shows

theorem toolCalls_shows (calls : List ToolCallItem) :
    s.ShowsStep t (calls.foldl (ToolBlocks.call toolStyle) t) (toolCalls setup calls s) := by
  induction calls generalizing s t with
  | nil => exact Server.ShowsStep.refl s t
  | cons call calls ih => exact Server.ShowsStep.trans (s.toolCall_shows call) (ih _)

theorem handle_shows (ev : GenEvent) :
    s.ShowsStep t (t.step toolStyle ev) (s.handle setup (.event ev)) := by
  unfold handle ToolBlocks.step
  match ev with
  | .reasoningDelta text =>
    simp only
    by_cases empty : text = []
    · simp only [empty, if_true]
      exact Server.ShowsStep.refl s t
    · simp only [empty, if_false]
      exact s.textual_shows text s.openReasoning_shows other_of_inReasoning
  | .contentDelta text =>
    simp only
    by_cases empty : text = []
    · simp only [empty, if_true]
      exact Server.ShowsStep.refl s t
    · simp only [empty, if_false]
      exact s.textual_shows text s.openMessage_shows other_of_inMessage
  | .toolCallStart toolIndex name stable =>
    simpa only [toolStyle, Bool.true_or] using s.openFunctionCall_shows setup (name.getD []) toolIndex
  | .toolCallArgsDelta toolIndex fragment =>
    intro blocks shows
    have forwarded : (if t.current.map (·.forwards) = some true then t.extend fragment else t) =
        t.extend fragment := by
      cases current : t.current with
      | none => simp [ToolBlocks.extend, current]
      | some b => simp [(shows.busy b current).1]
    simp only [forwarded]
    exact s.addArgs_shows fragment blocks shows
  | .toolCallsDelta calls => exact s.toolCalls_shows calls
  | .genDone finishReason promptTokens completionTokens matchedStop cachedTokens =>
    intro blocks shows
    have done := closeCurrent_shows (t := t) { s with
      finishReason := finishReason, usagePt := promptTokens, usageCt := completionTokens
      usageCached := if setup.cacheReport then cachedTokens else 0 } blocks
      ⟨shows.shown, shows.idle, shows.busy⟩
    simp only [genDone, List.foldl_append]
    rcases eq_or_ne finishReason lengthReason with rfl | other
    · simp only [if_true]
      exact ⟨done.shown, done.idle, done.busy⟩
    · simp only [other, if_false]
      exact ⟨done.shown, done.idle, done.busy⟩

theorem fail_shows (code message : List Char) (blocks : List NumberedBlock)
    (shows : s.Shows blocks t) :
    ((s.fail setup code message).foldl ResponsesFrame.collect blocks).map (·.block) = t.all := by
  unfold fail
  simp only [List.foldl_append, collect_close]
  exact shows.shown.map_block

theorem finish_shows (ending : Ending) (blocks : List NumberedBlock)
    (shows : s.Shows blocks t) :
    ((s.finish setup ending).foldl ResponsesFrame.collect blocks).map (·.block) = t.all := by
  match ending with
  | .exhausted => exact shows.shown.map_block
  | .raised (.generation message none) => exact s.fail_shows _ _ blocks shows
  | .raised (.generation message (some code)) => exact s.fail_shows _ _ blocks shows
  | .raised (.timeout message) => exact s.fail_shows _ _ blocks shows
  | .raised (.other message) => exact s.fail_shows _ _ blocks shows

end ResponsesState

theorem responsesStreamGenerator_collects (setup : ResponsesSetup) :
    (responsesStreamGenerator setup).Collects ResponsesFrame.collect ResponsesState.toolStyle
      ResponsesState.Shows where
  begins := ⟨⟨[], by simp, rfl, rfl⟩, fun _ => rfl, fun b none_ => by
    simp [ToolBlocks.start] at none_⟩
  event s _ ev := s.handle_shows ev
  keepalive _ _ := fun _ shows => ⟨shows.shown, shows.idle, shows.busy⟩
  finish s _ ending blocks shows := s.finish_shows ending blocks shows
  shown _ _ _ shows := shows.shown.map_block

end FreeSwarm.Server
