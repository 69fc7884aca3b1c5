import FreeSwarm.Server.Glm47

/-!
# Streams of GLM-4.7

Value-level streaming for GLM-4.7: text outside calls streams live. A value whose type is text streams
as it comes, escaped; any other value waits until it closes. What is sent is the same however the text
is cut, and it is what one-shot parsing returns when nothing in a call quotes the tag that ends it and
no text reads `null`.
-/

namespace FreeSwarm.Server

open FreeSwarm.Foundation

open Glm47Detector

/-! ## The parser -/

/-- Where in a call the stream is. -/
inductive GlmMode where
  | idle
  | name
  | invoke
  | invokeSkip
  | key
  | keySkip
  | preval
  | prevalSkip
  | pstr
  | pbuf
  | pskip
  deriving DecidableEq

structure Glm47Stream where
  buffer : List Char
  mode : GlmMode
  key : List Char
  lead : List Char
  config : ParamConfig
  leadTrimmed : Bool
  argsStarted : Bool
  ledger : CallLedger

namespace Glm47Stream

def start : Glm47Stream :=
  { buffer := [], mode := .idle, key := [], lead := ['\x7b'], config := [], leadTrimmed := false
    argsStarted := false, ledger := .start }

/-- The loop ends and the state is as it was. -/
def stop (s : Glm47Stream) : StreamTurn Glm47Stream := { next := s, out := .empty, again := false }

/-- The last characters of the buffer stay, those before them are markup between tags. -/
def keep (s : Glm47Stream) (hold : Nat) : StreamTurn Glm47Stream :=
  { next := { s with buffer := s.buffer.drop (s.buffer.length - hold) }, out := .empty
    again := false }

variable (env : ToolSetup)

variable (s : Glm47Stream)

def idleRound (called : Bool) : StreamTurn Glm47Stream :=
  StreamMachine.ordinaryTurn botToken called s.buffer (fun buf => { s with buffer := buf })
    fun buf => { s with buffer := buf, mode := .name }

def nameEnds : List (List Char) := [['\n'], keyOpen, eotToken]

/-- A turn in the name of a function, which runs until a newline, the first key, or the closing tag. -/
def nameRound : StreamTurn Glm47Stream :=
  match earliest nameEnds s.buffer with
  | none => s.stop
  | some (cut, _) =>
    let funcName := strip (s.buffer.take cut)
    let rest :=
      if s.buffer[cut]? = some '\n' then s.buffer.drop (cut + 1) else s.buffer.drop cut
    let ledger := s.ledger.prepare
    if funcName ≠ [] ∧ env.accepts funcName then
      let (ledger, calls) := ledger.open_ funcName
      { next := { s with buffer := rest, mode := .invoke, argsStarted := false
                         config := env.paramConfig funcName, ledger := ledger }
        out := ⟨[], calls⟩, again := true }
    else
      { next := { s with buffer := rest, mode := .invokeSkip, ledger := ledger }, out := .empty
        again := true }

/-- The tag that closes a call has been read. -/
def endInvoke (rest : List Char) : StreamTurn Glm47Stream :=
  let (ledger, calls) := s.ledger.emit (if s.argsStarted then ['\x7d'] else ['\x7b', '\x7d'])
  { next := { s with buffer := rest, mode := .idle, ledger := ledger.updatePrev.next }
    out := ⟨[], calls⟩, again := true }

def invokeRound (skip : Bool) (s : Glm47Stream) : StreamTurn Glm47Stream :=
  match nextTag (findSub eotToken s.buffer) (findSub keyOpen s.buffer) with
  | .closes pos =>
    let rest := s.buffer.drop (pos + eotToken.length)
    if skip then { next := { s with buffer := rest, mode := .idle }, out := .empty, again := true }
    else s.endInvoke rest
  | .opens pos =>
    { next := { s with buffer := s.buffer.drop (pos + keyOpen.length)
                       mode := if skip then .keySkip else .key }
      out := .empty, again := true }
  | .neither =>
    s.keep (max (endsWithPartialToken s.buffer keyOpen) (endsWithPartialToken s.buffer eotToken))

def keyRound (skip : Bool) (s : Glm47Stream) : StreamTurn Glm47Stream :=
  match findSub keyClose s.buffer with
  | none => s.stop
  | some pos =>
    { next := { s with buffer := s.buffer.drop (pos + keyClose.length)
                       key := strip (s.buffer.take pos)
                       mode := if skip then .prevalSkip else .preval }
      out := .empty, again := true }

/-- The tag that opens a value has been read. -/
def beginValue (rest : List Char) : StreamTurn Glm47Stream :=
  let lead := if s.argsStarted then [','] else ['\x7b']
  let s' := { s with buffer := rest, argsStarted := true }
  if schemaParamType env.py s.key s.config "loose".toList ∈ stringTypes then
    let (ledger, calls) := s.ledger.emit (lead ++ quote s.key ++ [':', '"'])
    { next := { s' with mode := .pstr, leadTrimmed := false, ledger := ledger }
      out := ⟨[], calls⟩, again := true }
  else { next := { s' with mode := .pbuf, lead := lead }, out := .empty, again := true }

/-- A turn between a key and its value. -/
def prevalRound (skip : Bool) (s : Glm47Stream) : StreamTurn Glm47Stream :=
  match findSub valOpen s.buffer with
  | none => s.keep (endsWithPartialToken s.buffer valOpen)
  | some pos =>
    let rest := s.buffer.drop (pos + valOpen.length)
    if skip then { next := { s with buffer := rest, mode := .pskip }, out := .empty, again := true }
    else s.beginValue env rest

/-- A turn in a value that is streamed and of which nothing is trimmed in front any more. -/
def valueRound : StreamTurn Glm47Stream :=
  match findSub valClose s.buffer with
  | none =>
    let safe := s.buffer.take (s.buffer.length - endsWithPartialToken s.buffer valClose)
    let emitNow := rstrip safe
    let (ledger, calls) := s.ledger.emit (escape emitNow)
    { next := { s with buffer := s.buffer.drop emitNow.length, ledger := ledger }
      out := ⟨[], calls⟩, again := false }
  | some pos =>
    let tail := rstrip (s.buffer.take pos)
    let (ledger, calls) := s.ledger.emit (escape tail ++ ['"'])
    { next := { s with buffer := s.buffer.drop (pos + valClose.length), mode := .invoke
                       ledger := ledger.updatePrev }
      out := ⟨[], calls⟩, again := true }

def strRound : StreamTurn Glm47Stream :=
  if s.leadTrimmed then s.valueRound
  else
    let trimmed := lstrip s.buffer
    if trimmed ≠ s.buffer then { next := { s with buffer := trimmed }, out := .empty, again := true }
    else { s with leadTrimmed := true }.valueRound

/-- A turn in a value that is held, which fails when the conversion of the value does. -/
def bufRound : Option (StreamTurn Glm47Stream) :=
  match findSub valClose s.buffer with
  | none => some s.stop
  | some pos =>
    (convertValue env.py (strip (s.buffer.take pos)) s.key s.config).map fun converted =>
      let (ledger, calls) := s.ledger.emit (s.lead ++ quote s.key ++ [':'] ++ converted.dumps)
      { next := { s with buffer := s.buffer.drop (pos + valClose.length), mode := .invoke
                         ledger := ledger.updatePrev }
        out := ⟨[], calls⟩, again := true }

def skipRound : StreamTurn Glm47Stream :=
  match findSub valClose s.buffer with
  | none => s.stop
  | some pos =>
    { next := { s with buffer := s.buffer.drop (pos + valClose.length), mode := .invokeSkip }
      out := .empty, again := true }

def round (called : Bool) : Option (StreamTurn Glm47Stream) :=
  match s.mode with
  | .idle => some (s.idleRound called)
  | .name => some (s.nameRound env)
  | .invoke => some (s.invokeRound false)
  | .invokeSkip => some (s.invokeRound true)
  | .key => some (s.keyRound false)
  | .keySkip => some (s.keyRound true)
  | .preval => some (s.prevalRound env false)
  | .prevalSkip => some (s.prevalRound env true)
  | .pstr => some s.strRound
  | .pbuf => s.bufRound env
  | .pskip => some s.skipRound

/-- The parser. A turn takes something from the buffer or leaves the name of a function. -/
def machine : StreamMachine Glm47Stream :=
  { buffer := buffer
    receive := fun s newText => { s with buffer := s.buffer ++ newText }
    round := round env
    turns := fun s => 2 * s.buffer.length + if s.mode = .name then 1 else 0 }

end Glm47Stream

/-! ## What is still to be sent -/

/-- What follows a pair, or the name: text up to the next tag, further pairs, the ordinary text behind
the call, and further calls. -/
structure GlmTail where
  gap : List Char
  args : List GlmArg
  after : List Char
  calls : List GlmCall

namespace GlmTail

def text (t : GlmTail) : List Char :=
  t.gap ++ argsText t.args (eotToken ++ (t.after ++ callsText t.calls))

def normal (t : GlmTail) : List Char := t.after ++ ordinaryText t.calls

/-- What the rest of the call and the calls behind it send. -/
def events (env : ToolSetup) (config : ParamConfig) (started : Bool) (index : Int) (t : GlmTail) :
    List CallEvent :=
  (argumentsTail started (t.args.map (GlmArg.member env config))).map (.arg index) ++
    wholeCalls (index + 1) (t.calls.map (GlmCall.sent env))

/-- The number of calls that have still to end. -/
def blocks (t : GlmTail) : Nat := t.calls.length + 1

/-- Everything in it is complete. -/
structure Wf (env : ToolSetup) (config : ParamConfig) (t : GlmTail) : Prop where
  gap : FreeOf [keyOpen, eotToken] t.gap
  args : ∀ a ∈ t.args, a.Wf env config
  after : FreeOf [botToken] t.after
  calls : ∀ c ∈ t.calls, c.Wf env

theorem events_cons (env : ToolSetup) (config : ParamConfig) (started : Bool) (index : Int)
    (a : GlmArg) (t : GlmTail) :
    events env config started index { t with args := a :: t.args } =
      ((if started then [','] else ['\x7b']) ++ quote a.key ++ [':'] ++
          (a.member env config).2.dumps).map (.arg index) ++ t.events env config true index := by
  unfold events
  rw [List.map_cons, GlmArg.member, argumentsTail_cons, List.map_append, List.append_assoc]

end GlmTail

def GlmArg.valueText (a : GlmArg) (t : GlmTail) : List Char := a.value ++ (valClose ++ t.text)

def glmValueTail (leadTrimmed : Bool) (value : List Char) : List Char :=
  rstrip (if leadTrimmed then value else lstrip value)

/-- The text that a state has not decided yet, the ordinary text and the calls that it has still to
give, and the calls that have still to end. -/
inductive GlmPlan (env : ToolSetup) (s : Glm47Stream) :
    List Char → List Char → List CallEvent → Nat → Prop where
  | idle (text : List Char) (calls : List GlmCall) (mode : s.mode = .idle)
      (free : FreeOf [botToken] text) (wf : ∀ c ∈ calls, c.Wf env)
      (known : -1 ≤ s.ledger.currentToolId) :
      GlmPlan env s (text ++ callsText calls) (text ++ ordinaryText calls)
        (wholeCalls s.ledger.nextId (calls.map (GlmCall.sent env))) calls.length
  | name (c : GlmCall) (calls : List GlmCall) (mode : s.mode = .name)
      (wf : ∀ c' ∈ c :: calls, c'.Wf env) (known : -1 ≤ s.ledger.currentToolId) :
      GlmPlan env s (c.head ++ argsText c.args (eotToken ++ (c.after ++ callsText calls)))
        (c.after ++ ordinaryText calls)
        (wholeCalls s.ledger.nextId ((c :: calls).map (GlmCall.sent env))) (calls.length + 1)
  | invoke (tail : GlmTail) (mode : s.mode = .invoke) (wf : tail.Wf env s.config)
      (known : 0 ≤ s.ledger.currentToolId) :
      GlmPlan env s tail.text tail.normal
        (tail.events env s.config s.argsStarted s.ledger.currentToolId) tail.blocks
  | key (a : GlmArg) (tail : GlmTail) (mode : s.mode = .key) (arg : a.Wf env s.config)
      (wf : tail.Wf env s.config) (known : 0 ≤ s.ledger.currentToolId) :
      GlmPlan env s (a.rawKey ++ (keyClose ++ (a.space ++ (valOpen ++ a.valueText tail))))
        tail.normal
        (GlmTail.events env s.config s.argsStarted s.ledger.currentToolId
          { tail with args := a :: tail.args }) tail.blocks
  | preval (a : GlmArg) (tail : GlmTail) (mode : s.mode = .preval) (same : s.key = a.key)
      (arg : a.Wf env s.config) (wf : tail.Wf env s.config) (known : 0 ≤ s.ledger.currentToolId) :
      GlmPlan env s (a.space ++ (valOpen ++ a.valueText tail)) tail.normal
        (GlmTail.events env s.config s.argsStarted s.ledger.currentToolId
          { tail with args := a :: tail.args }) tail.blocks
  | pstr (value : List Char) (tail : GlmTail) (mode : s.mode = .pstr)
      (started : s.argsStarted = true) (free : FreeOf [valClose] value)
      (wf : tail.Wf env s.config) (known : 0 ≤ s.ledger.currentToolId) :
      GlmPlan env s (value ++ (valClose ++ tail.text)) tail.normal
        ((escape (glmValueTail s.leadTrimmed value) ++ ['"']).map (.arg s.ledger.currentToolId) ++
          tail.events env s.config true s.ledger.currentToolId) tail.blocks
  | pbuf (value : List Char) (converted : Json) (tail : GlmTail) (mode : s.mode = .pbuf)
      (started : s.argsStarted = true) (free : FreeOf [valClose] value)
      (converts : convertValue env.py (strip value) s.key s.config = some converted)
      (wf : tail.Wf env s.config) (known : 0 ≤ s.ledger.currentToolId) :
      GlmPlan env s (value ++ (valClose ++ tail.text)) tail.normal
        ((s.lead ++ quote s.key ++ [':'] ++ converted.dumps).map (.arg s.ledger.currentToolId) ++
          tail.events env s.config true s.ledger.currentToolId) tail.blocks

namespace Glm47Stream

def Idle (s : Glm47Stream) : Prop := s.mode = .idle

abbrev Kept (env : ToolSetup) (s : Glm47Stream) (called : Bool) (turn : StreamTurn Glm47Stream)
    (future normal : List Char) (calls : List CallEvent) (blocks : Nat) : Prop :=
  (machine env).Kept Idle (GlmPlan env) s called turn future normal calls blocks

section
variable {env : ToolSetup} {s : Glm47Stream} {future : List Char} {called : Bool}

theorem idleRound_kept {text : List Char} {calls : List GlmCall} (mode : s.mode = .idle)
    (free : FreeOf [botToken] text) (wf : ∀ c ∈ calls, c.Wf env)
    (known : -1 ≤ s.ledger.currentToolId) (whole : s.buffer ++ future = text ++ callsText calls)
    (nonempty : s.buffer ≠ []) :
    Kept env s called (s.idleRound called) future (text ++ ordinaryText calls)
      (wholeCalls s.ledger.nextId (calls.map (GlmCall.sent env))) calls.length := by
  refine StreamMachine.ordinaryTurn_kept (m := machine env) headed_botToken free mode
    (fun buf => by simp [Idle]) (fun _ => rfl) (fun _ => rfl)
    (fun buf text' free' => .idle text' calls mode free' wf known) ?_ (fun buf less => ?_) whole nonempty
  · cases calls with
    | nil => exact .inl ⟨rfl, rfl⟩
    | cons c calls => exact .inr ⟨_, rfl, fun buf => .name c calls rfl wf known⟩
  · simp only [machine] at less ⊢
    split_ifs <;> omega

variable {c : GlmCall} {value : List Char} {tail : GlmTail}

theorem clear_name {tok rest : List Char} (free : FreeOf [keyOpen, eotToken] c.head)
    (mem : tok ∈ [keyOpen, eotToken]) :
    ∀ stop ∈ nameEnds, ClearBelow stop c.rawName.length (c.head ++ (tok ++ rest)) := by
  intro stop mem'
  rcases List.mem_cons.mp mem' with rfl | mem'
  · have split : c.head = c.rawName ++ c.head.dropWhile (· ≠ '\n') :=
      List.takeWhile_append_dropWhile.symm
    intro d below occurs
    have char := getElem?_of_prefix_drop occurs
    rw [split, List.append_assoc, List.getElem?_append_left below,
      List.getElem?_eq_getElem below] at char
    exact newline_not_mem c (Option.some.inj char ▸ List.getElem_mem below)
  · exact (headed_call.clear_ahead mem free mem').mono (List.takeWhile_prefix _).length_le

theorem exists_nameEnd {tok rest : List Char} (mem : tok ∈ [keyOpen, eotToken]) :
    ∃ stop ∈ nameEnds, stop ≠ [] ∧ stop <+: (c.head ++ (tok ++ rest)).drop c.rawName.length ∧
      ∀ stop' ∈ nameEnds, ∀ d, c.rawName.length ≤ d →
        stop' <+: (c.head ++ (tok ++ rest)).drop d →
          c.rawName.length + stop.length ≤ d + stop'.length := by
  have long : ∀ stop' ∈ nameEnds, 0 < stop'.length := by decide
  rcases head_eq c with same | ⟨same, -⟩
  · refine ⟨['\n'], List.mem_cons_self, by simp, ?_, fun stop' mem' d above _ => ?_⟩
    · conv_rhs => rw [same, List.append_assoc, List.drop_left]
      exact ⟨_, rfl⟩
    · have := long stop' mem'
      rw [List.length_singleton]
      omega
  · have memEnds : tok ∈ nameEnds := List.mem_cons_of_mem _ mem
    have here : tok <+: (c.head ++ (tok ++ rest)).drop c.rawName.length := by
      rw [same, List.drop_left]
      exact List.prefix_append _ _
    refine ⟨tok, memEnds, headed_call.ne_nil mem, here, fun stop' mem' d above occurs => ?_⟩
    by_contra short
    rcases List.mem_cons.mp mem' with rfl | mem'
    · -- The line break would be in the tag.
      have char := getElem?_of_prefix_drop occurs
      rw [List.length_singleton] at short
      rw [same, List.getElem?_append_right above, List.getElem?_append_left (by omega)] at char
      have free : ∀ tok ∈ [keyOpen, eotToken], '\n' ∉ tok := by decide
      exact free tok mem (List.mem_of_getElem? char)
    · rcases Nat.eq_or_lt_of_le above with rfl | later
      · rcases List.prefix_or_prefix_of_prefix occurs here with h | h
        · rw [headed_call.apart _ mem' _ mem h] at short
          omega
        · rw [headed_call.apart _ mem _ mem' h] at short
          omega
      · exact headed_call.no_overlap mem mem' here occurs later (by omega)

theorem drop_name (c : GlmCall) {tok rest : List Char} (mem : tok ∈ [keyOpen, eotToken]) :
    (if (c.head ++ (tok ++ rest))[c.rawName.length]? = some '\n' then
        (c.head ++ (tok ++ rest)).drop (c.rawName.length + 1)
      else (c.head ++ (tok ++ rest)).drop c.rawName.length) = c.gap ++ (tok ++ rest) := by
  rcases head_eq c with same | ⟨same, gap⟩
  · have text : c.head ++ (tok ++ rest) = c.rawName ++ '\n' :: (c.gap ++ (tok ++ rest)) := by
      rw [same]
      simp
    rw [text, if_pos (by simp), ← List.drop_drop, List.drop_left]
    rfl
  · have other : (c.head ++ (tok ++ rest))[c.rawName.length]? ≠ some '\n' := by
      rw [same, List.getElem?_append_right le_rfl, Nat.sub_self]
      have first := headed_call.head tok mem
      rw [List.head?_eq_getElem?] at first
      rw [List.getElem?_append_left (List.length_pos_iff.mpr (headed_call.ne_nil mem)), first]
      decide
    rw [if_neg other, gap, same, List.drop_left]
    rfl

/-- Before the tag that is next, the name ends where the first line break or the tag is, or it has not
arrived whole. -/
theorem nameEnd_ahead {tok rest buf : List Char} (free : FreeOf [keyOpen, eotToken] c.head)
    (mem : tok ∈ [keyOpen, eotToken]) (whole : buf ++ future = c.head ++ (tok ++ rest)) :
    (∃ found, earliest nameEnds buf = some (c.rawName.length, found) ∧
      buf.take c.rawName.length = c.rawName ∧ c.rawName.length < buf.length ∧
      (if buf[c.rawName.length]? = some '\n' then buf.drop (c.rawName.length + 1)
        else buf.drop c.rawName.length) ++ future = c.gap ++ (tok ++ rest)) ∨
      earliest nameEnds buf = none ∧ future ≠ [] := by
  have clear := @clear_name c tok rest free mem
  obtain ⟨stop, memStop, some_, here, first⟩ := @exists_nameEnd c tok rest mem
  have left := @drop_name c tok rest mem
  have positive := List.length_pos_iff.mpr some_
  rw [← whole] at clear here first left
  by_cases fits : c.rawName.length + stop.length ≤ buf.length
  · left
    have within : stop <+: buf.drop c.rawName.length := by
      rw [List.drop_append_of_le_length (by omega)] at here
      refine List.prefix_of_prefix_length_le here (List.prefix_append _ _) ?_
      rw [List.length_drop]
      omega
    obtain ⟨found, at_⟩ := earliest_of_clear memStop within fun tok' mem' =>
      (clear tok' mem').of_append
    refine ⟨found, at_, ?_, by omega, ?_⟩
    · have begins : c.rawName <+: c.head := List.takeWhile_prefix _
      have taken := congrArg (List.take c.rawName.length) whole
      rw [List.take_append_of_le_length (by omega),
        List.take_append_of_le_length begins.length_le] at taken
      exact taken.trans (List.prefix_iff_eq_take.mp begins).symm
    · rw [List.getElem?_append_left (by omega), List.drop_append_of_le_length (by omega),
        List.drop_append_of_le_length (by omega)] at left
      rw [← left]
      split_ifs <;> rfl
  · right
    refine ⟨earliest_eq_none_iff.mpr fun stop' mem' occurs => ?_, ?_⟩
    · obtain ⟨d, at_⟩ := isInfix_iff_exists_drop.mp occurs
      have room := at_.length_le
      rw [List.length_drop] at room
      have inside : d ≤ buf.length := by
        by_contra beyond
        have empty := List.length_eq_zero_iff.mp (by omega : stop'.length = 0)
        exact absurd mem' (by rw [empty]; decide)
      have grown : stop' <+: (buf ++ future).drop d := by
        rw [List.drop_append_of_le_length inside]
        exact at_.trans (List.prefix_append _ _)
      have above : c.rawName.length ≤ d :=
        not_lt.mp fun below => clear stop' mem' d below grown
      have := first stop' mem' d above grown
      omega
    · rintro rfl
      rw [List.append_nil] at here
      have := here.length_le
      rw [List.length_drop] at this
      omega

theorem argsText_tag (args : List GlmArg) (rest : List Char) :
    ∃ tok ∈ [keyOpen, eotToken], ∃ rest', argsText args (eotToken ++ rest) = tok ++ rest' := by
  cases args with
  | nil => exact ⟨eotToken, by simp, rest, rfl⟩
  | cons a args => exact ⟨keyOpen, by simp, _, rfl⟩

theorem nameRound_kept {calls : List GlmCall} (mode : s.mode = .name)
    (wf : ∀ c' ∈ c :: calls, c'.Wf env) (known : -1 ≤ s.ledger.currentToolId)
    (whole : s.buffer ++ future =
      c.head ++ argsText c.args (eotToken ++ (c.after ++ callsText calls))) :
    Kept env s called (s.nameRound env) future (c.after ++ ordinaryText calls)
      (wholeCalls s.ledger.nextId ((c :: calls).map (GlmCall.sent env))) (calls.length + 1) := by
  obtain ⟨here, later⟩ := List.forall_mem_cons.mp wf
  obtain ⟨tok, mem, rest', same⟩ := argsText_tag c.args (c.after ++ callsText calls)
  unfold nameRound
  rw [same] at whole
  rcases nameEnd_ahead here.head mem whole with ⟨found, ends, taken, inside, left⟩ | ⟨none_, waits⟩
  · have accepted : strip c.rawName ≠ [] ∧ env.accepts (strip c.rawName) = true :=
      ⟨here.named, here.known⟩
    simp only [ends, taken, if_pos accepted]
    rw [← same] at left
    refine StreamMachine.kept_on left (.invoke ⟨c.gap, c.args, c.after, calls⟩ rfl
      ⟨here.gap, here.args, here.after, later⟩ (CallLedger.nextId_nonneg known)) rfl ?_ rfl
        (by simp [Idle]) ?_
    · rw [CallLedger.callEvents_open]
      rfl
    · have short : (if s.buffer[c.rawName.length]? = some '\n' then
          s.buffer.drop (c.rawName.length + 1) else s.buffer.drop c.rawName.length).length ≤
            s.buffer.length := by
        split_ifs <;> simp
      simp only [machine, mode, reduceCtorEq, if_true, if_false]
      omega
  · rw [none_]
    rw [← same] at whole
    exact StreamMachine.kept_wait (.name c calls mode wf known) whole id
      fun arrived => absurd arrived waits

theorem keep_kept {left' normal : List Char} {calls : List CallEvent} {blocks hold : Nat}
    (plan : GlmPlan env { s with buffer := s.buffer.drop (s.buffer.length - hold) } left' normal calls
      blocks)
    (whole : s.buffer.drop (s.buffer.length - hold) ++ future = left') (waits : future ≠ []) :
    Kept env s called (s.keep hold) future normal calls blocks :=
  StreamMachine.kept_wait plan whole id fun arrived => absurd arrived waits

theorem endInvoke_kept {after rest : List Char} {calls : List GlmCall} (free : FreeOf [botToken] after)
    (wf : ∀ c ∈ calls, c.Wf env) (known : 0 ≤ s.ledger.currentToolId)
    (whole : rest ++ future = after ++ callsText calls) (shorter : rest.length < s.buffer.length) :
    Kept env s called (s.endInvoke rest) future (after ++ ordinaryText calls)
      ((argumentsTail s.argsStarted []).map (.arg s.ledger.currentToolId) ++
        wholeCalls (s.ledger.currentToolId + 1) (calls.map (GlmCall.sent env)))
      (calls.length + 1) := by
  have id' : (s.endInvoke rest).next.ledger.currentToolId = s.ledger.currentToolId + 1 := by
    simp [endInvoke]
  have known' : -1 ≤ (s.endInvoke rest).next.ledger.currentToolId := by omega
  refine ⟨_, _, _, _,
    { whole := whole, plan := .idle after calls rfl free wf known', normal := rfl, calls := ?_
      fewer := Nat.le_succ _, shorter := fun _ => ?_
      stops := fun again => absurd again (by simp [endInvoke])
      ends := fun _ => .inr (Nat.lt_succ_self _) }⟩
  · have next : (s.endInvoke rest).next.ledger.nextId = s.ledger.currentToolId + 1 := by
      rw [CallLedger.nextId_of_nonneg (by omega), id']
    have sent : callEvents (s.endInvoke rest).out.calls =
        (argumentsTail s.argsStarted []).map (.arg s.ledger.currentToolId) := by
      rw [argumentsTail_nil]
      exact CallLedger.callEvents_emit _ _
    rw [next, sent]
  · simp only [machine, endInvoke, reduceCtorEq, if_false]
    omega

theorem invokeRound_kept (mode : s.mode = .invoke) (wf : tail.Wf env s.config)
    (known : 0 ≤ s.ledger.currentToolId) (whole : s.buffer ++ future = tail.text) :
    Kept env s called (s.invokeRound false) future tail.normal
      (tail.events env s.config s.argsStarted s.ledger.currentToolId) tail.blocks := by
  have memOpen : keyOpen ∈ [keyOpen, eotToken] := by simp
  have memClose : eotToken ∈ [keyOpen, eotToken] := by simp
  obtain ⟨gap, args, after, calls⟩ := tail
  unfold invokeRound
  simp only [max_endsWithPartialToken headed_call, Bool.false_eq_true, if_false]
  cases args with
  | nil =>
    have whole' : s.buffer ++ future = gap ++ (eotToken ++ (after ++ callsText calls)) := whole
    rcases nextTag_closes headed_call memClose memOpen (by decide) wf.gap whole' with
      ⟨closes, -, left⟩ | ⟨neither, unseen⟩
    · rw [closes]
      refine endInvoke_kept wf.after wf.calls known left ?_
      have size := congrArg List.length left
      have size' := congrArg List.length whole'
      have long : 0 < eotToken.length := by decide
      simp only [List.length_append, List.length_drop] at size size' ⊢
      omega
    · rw [neither]
      obtain ⟨gap', same, left⟩ := hold_ahead memClose whole' unseen
      exact keep_kept (.invoke ⟨gap', [], after, calls⟩ mode
        ⟨(same ▸ wf.gap).right, wf.args, wf.after, wf.calls⟩ known) left
        (ne_nil_of_unseen whole' unseen)
  | cons a args =>
    obtain ⟨here, later⟩ := List.forall_mem_cons.mp wf.args
    have whole' : s.buffer ++ future = gap ++ (keyOpen ++ (a.rawKey ++ (keyClose ++ (a.space ++
        (valOpen ++ a.valueText ⟨a.gap, args, after, calls⟩))))) := whole
    rcases nextTag_opens headed_call memClose memOpen (by decide) wf.gap whole' with
      ⟨opens, taken, left⟩ | ⟨neither, unseen⟩
    · rw [opens]
      refine StreamMachine.kept_on left (.key a ⟨a.gap, args, after, calls⟩ rfl here
        ⟨here.gap, later, wf.after, wf.calls⟩ known) rfl rfl rfl (by simp [Idle]) ?_
      have size := congrArg List.length left
      have size' := congrArg List.length whole'
      have long : 0 < keyOpen.length := by decide
      simp only [machine, mode, reduceCtorEq, if_false, List.length_append, List.length_drop]
        at size size' ⊢
      omega
    · rw [neither]
      obtain ⟨gap', same, left⟩ := hold_ahead memOpen whole' unseen
      exact keep_kept (.invoke ⟨gap', a :: args, after, calls⟩ mode
        ⟨(same ▸ wf.gap).right, wf.args, wf.after, wf.calls⟩ known) left
        (ne_nil_of_unseen whole' unseen)

theorem keyRound_kept {a : GlmArg} {tail : GlmTail} (mode : s.mode = .key) (arg : a.Wf env s.config)
    (wf : tail.Wf env s.config) (known : 0 ≤ s.ledger.currentToolId)
    (whole : s.buffer ++ future =
      a.rawKey ++ (keyClose ++ (a.space ++ (valOpen ++ a.valueText tail)))) :
    Kept env s called (s.keyRound false) future tail.normal
      (GlmTail.events env s.config s.argsStarted s.ledger.currentToolId
        { tail with args := a :: tail.args }) tail.blocks := by
  have mem : keyClose ∈ [keyClose] := List.mem_singleton_self _
  unfold keyRound
  cases found : findSub keyClose s.buffer with
  | none =>
    exact StreamMachine.kept_wait (.key a tail mode arg wf known) whole id
      fun arrived => absurd arrived (ne_nil_of_unseen whole found)
  | some pos =>
    obtain ⟨rfl, taken, left⟩ := headed_keyClose.found_ahead mem arg.key whole found
    have room := findSub_room (headed_keyClose.ne_nil mem) found
    have long : 0 < keyClose.length := by decide
    refine StreamMachine.kept_on left (.preval a tail rfl (congrArg strip taken) arg wf known) rfl rfl rfl
      (by simp [Idle]) ?_
    simp only [machine, mode, reduceCtorEq, if_false, Bool.false_eq_true, List.length_drop]
    omega

theorem beginValue_kept {a : GlmArg} {tail : GlmTail} {rest : List Char} (same : s.key = a.key)
    (arg : a.Wf env s.config) (wf : tail.Wf env s.config) (known : 0 ≤ s.ledger.currentToolId)
    (whole : rest ++ future = a.valueText tail) (shorter : rest.length < s.buffer.length) :
    Kept env s called (s.beginValue env rest) future tail.normal
      (GlmTail.events env s.config s.argsStarted s.ledger.currentToolId
        { tail with args := a :: tail.args }) tail.blocks := by
  unfold beginValue
  rw [GlmTail.events_cons]
  simp only [same]
  by_cases streamed : a.Streamed env s.config
  · rw [if_pos (show schemaParamType env.py a.key s.config "loose".toList ∈ stringTypes
      from streamed)]
    have sent : (a.member env s.config).2 = .str (strip a.value) := by
      rw [GlmArg.member, GlmArg.sentValue, if_pos streamed]
      rfl
    refine StreamMachine.kept_on whole (.pstr a.value tail rfl rfl arg.value wf (by simpa using known)) rfl
      ?_ rfl (by simp [Idle]) ?_
    · rw [sent]
      simp [Json.dumps, quote, glmValueTail, strip]
    · simp only [machine, reduceCtorEq, if_false]
      omega
  · rw [if_neg (show schemaParamType env.py a.key s.config "loose".toList ∉ stringTypes
      from streamed)]
    obtain ⟨converted, converts⟩ := Option.isSome_iff_exists.mp arg.converts
    have sent : (a.member env s.config).2 = converted := by
      rw [GlmArg.member, converts]
      rfl
    rw [GlmArg.sentValue, if_neg streamed] at converts
    refine StreamMachine.kept_on whole (.pbuf a.value converted tail rfl rfl arg.value converts wf known)
      rfl ?_ rfl (by simp [Idle]) ?_
    · rw [sent]
      rfl
    · simp only [machine, reduceCtorEq, if_false]
      omega

theorem prevalRound_kept {a : GlmArg} {tail : GlmTail} (mode : s.mode = .preval) (same : s.key = a.key)
    (arg : a.Wf env s.config) (wf : tail.Wf env s.config) (known : 0 ≤ s.ledger.currentToolId)
    (whole : s.buffer ++ future = a.space ++ (valOpen ++ a.valueText tail)) :
    Kept env s called (s.prevalRound env false) future tail.normal
      (GlmTail.events env s.config s.argsStarted s.ledger.currentToolId
        { tail with args := a :: tail.args }) tail.blocks := by
  have mem : valOpen ∈ [valOpen] := List.mem_singleton_self _
  have free : FreeOf [valOpen] a.space := by
    intro tok mem' occurs
    obtain rfl := List.mem_singleton.mp mem'
    have blank := arg.space '<' (occurs.subset (show '<' ∈ valOpen by decide))
    exact absurd blank (by decide)
  unfold prevalRound
  cases found : findSub valOpen s.buffer with
  | none =>
    obtain ⟨space', same', left⟩ := hold_ahead mem whole found
    rw [← endsWithPartialToken_eq headed_valOpen mem] at same' left
    have arg' : GlmArg.Wf env s.config { a with space := space' } :=
      ⟨arg.key, fun c mem => arg.space c (same' ▸ List.mem_append_right _ mem), arg.value, arg.gap,
        arg.converts⟩
    exact keep_kept (GlmPlan.preval { a with space := space' } tail mode same arg' wf known) left
      (ne_nil_of_unseen whole found)
  | some pos =>
    obtain ⟨rfl, taken, left⟩ := headed_valOpen.found_ahead mem free whole found
    have room := findSub_room (headed_valOpen.ne_nil mem) found
    have long : 0 < valOpen.length := by decide
    refine beginValue_kept same arg wf known left ?_
    rw [List.length_drop]
    omega

theorem bufRound_kept {converted : Json} {tail : GlmTail}
    (mode : s.mode = .pbuf) (started : s.argsStarted = true) (free : FreeOf [valClose] value)
    (converts : convertValue env.py (strip value) s.key s.config = some converted)
    (wf : tail.Wf env s.config) (known : 0 ≤ s.ledger.currentToolId)
    (whole : s.buffer ++ future = value ++ (valClose ++ tail.text)) :
    ∃ turn, s.bufRound env = some turn ∧
      Kept env s called turn future tail.normal
        ((s.lead ++ quote s.key ++ [':'] ++ converted.dumps).map (.arg s.ledger.currentToolId) ++
          tail.events env s.config true s.ledger.currentToolId) tail.blocks := by
  have mem : valClose ∈ [valClose] := List.mem_singleton_self _
  unfold bufRound
  cases found : findSub valClose s.buffer with
  | none =>
    exact ⟨_, rfl, StreamMachine.kept_wait (.pbuf value converted tail mode started free converts wf
      known) whole id fun arrived => absurd arrived (ne_nil_of_unseen whole found)⟩
  | some pos =>
    obtain ⟨rfl, taken, left⟩ := headed_valClose.found_ahead mem free whole found
    have room := findSub_room (headed_valClose.ne_nil mem) found
    have long : 0 < valClose.length := by decide
    simp only [taken, converts, Option.map_some]
    have known' : 0 ≤ (s.ledger.emit (s.lead ++ quote s.key ++ [':'] ++
        converted.dumps)).1.updatePrev.currentToolId := by
      simpa using known
    refine ⟨_, rfl, StreamMachine.kept_on left (.invoke tail rfl wf known') rfl ?_ rfl (by simp [Idle]) ?_⟩
    · rw [CallLedger.callEvents_emit]
      simp [started]
    · simp only [machine, mode, reduceCtorEq, if_false, List.length_drop]
      omega

theorem valueRound_kept (mode : s.mode = .pstr)
    (started : s.argsStarted = true) (free : FreeOf [valClose] value) (wf : tail.Wf env s.config)
    (known : 0 ≤ s.ledger.currentToolId) (trimmed : s.leadTrimmed = true)
    (whole : s.buffer ++ future = value ++ (valClose ++ tail.text)) :
    Kept env s called s.valueRound future tail.normal
      ((escape (rstrip value) ++ ['"']).map (.arg s.ledger.currentToolId) ++
        tail.events env s.config true s.ledger.currentToolId) tail.blocks := by
  have mem : valClose ∈ [valClose] := List.mem_singleton_self _
  unfold valueRound
  cases found : findSub valClose s.buffer with
  | none =>
    obtain ⟨value', same, left⟩ := hold_ahead mem whole found
    rw [← endsWithPartialToken_eq headed_valClose mem] at same left
    generalize s.buffer.length - endsWithPartialToken s.buffer valClose = safe at *
    simp only
    -- What is sent ends before the characters that may still be trimmed.
    obtain ⟨blank, -, hblank⟩ := exists_rstrip (s.buffer.take safe)
    have solid : ∀ c ∈ (rstrip (s.buffer.take safe)).getLast?, isSpace c = false := by
      intro c last
      have first := List.head?_dropWhile_not isSpace (s.buffer.take safe).reverse
      rw [rstrip, List.rdropWhile, List.getLast?_reverse] at last
      rw [Option.mem_def.mp last] at first
      simpa using first
    generalize rstrip (s.buffer.take safe) = emitNow at *
    have buffer : s.buffer = emitNow ++ (blank ++ s.buffer.drop safe) := by
      rw [← List.append_assoc, ← hblank, List.take_append_drop]
    have value_ : value = emitNow ++ (blank ++ value') := by
      rw [← List.append_assoc, ← hblank]
      exact same
    have dropped : s.buffer.drop emitNow.length = blank ++ s.buffer.drop safe := by
      conv_lhs => rw [buffer]
      exact List.drop_left
    have left' : s.buffer.drop emitNow.length ++ future =
        (blank ++ value') ++ (valClose ++ tail.text) := by
      rw [dropped, List.append_assoc, left, List.append_assoc]
    have known' : 0 ≤ (s.ledger.emit (escape emitNow)).1.currentToolId := by simpa using known
    refine ⟨_, _, _, _,
      { whole := left'
        plan := .pstr (blank ++ value') tail mode started (value_ ▸ free).right wf known'
        normal := rfl, calls := ?_, fewer := le_rfl
        shorter := fun again => absurd again (by simp)
        stops := fun _ arrived => absurd arrived (ne_nil_of_unseen whole found)
        ends := fun idle => absurd (show s.mode = .idle from idle) (by simp [mode]) }⟩
    rw [value_, rstrip_append solid, escape_append]
    simp [glmValueTail, trimmed]
  | some pos =>
    obtain ⟨rfl, taken, left⟩ := headed_valClose.found_ahead mem free whole found
    have room := findSub_room (headed_valClose.ne_nil mem) found
    have long : 0 < valClose.length := by decide
    simp only [taken]
    have known' : 0 ≤ (s.ledger.emit (escape (rstrip value) ++
        ['"'])).1.updatePrev.currentToolId := by
      simpa using known
    refine StreamMachine.kept_on left (.invoke tail rfl wf known') rfl ?_ rfl (by simp [Idle]) ?_
    · simp [started]
    · simp only [machine, mode, reduceCtorEq, if_false, List.length_drop]
      omega

theorem lstrip_value {value rest buffer : List Char}
    (whole : buffer ++ future = value ++ (valClose ++ rest)) :
    ∃ value', lstrip buffer ++ future = value' ++ (valClose ++ rest) ∧ value' <:+ value ∧
      lstrip value = lstrip value' ∧ (lstrip buffer = buffer → buffer ≠ [] → lstrip value = value) := by
  induction buffer generalizing value with
  | nil => exact ⟨value, whole, List.suffix_rfl, rfl, fun _ some_ => absurd rfl some_⟩
  | cons c buffer ih =>
    by_cases blank : isSpace c = true
    · have moved : lstrip (c :: buffer) = lstrip buffer := List.dropWhile_cons_of_pos blank
      cases value with
      | nil =>
        obtain ⟨rfl, -⟩ := List.cons.inj
          (show c :: (buffer ++ future) = '<' :: (valClose.tail ++ rest) from whole)
        exact absurd blank (by decide)
      | cons c' value =>
        obtain ⟨rfl, later⟩ := List.cons.inj whole
        obtain ⟨value', left, within, same, -⟩ := ih later
        refine ⟨value', moved ▸ left, within.trans (List.suffix_cons _ _), ?_, fun stays => ?_⟩
        · rw [lstrip, List.dropWhile_cons_of_pos blank]
          exact same
        · have shorter := (List.dropWhile_suffix (l := buffer) isSpace).length_le
          rw [← lstrip, ← moved, stays, List.length_cons] at shorter
          omega
    · have stays : lstrip (c :: buffer) = c :: buffer := List.dropWhile_cons_of_neg blank
      refine ⟨value, stays.symm ▸ whole, List.suffix_rfl, rfl, fun _ _ => ?_⟩
      cases value with
      | nil => rfl
      | cons c' value =>
        obtain ⟨rfl, -⟩ := List.cons.inj whole
        exact List.dropWhile_cons_of_neg blank

theorem strRound_kept (mode : s.mode = .pstr)
    (started : s.argsStarted = true) (free : FreeOf [valClose] value) (wf : tail.Wf env s.config)
    (known : 0 ≤ s.ledger.currentToolId)
    (whole : s.buffer ++ future = value ++ (valClose ++ tail.text)) (nonempty : s.buffer ≠ []) :
    Kept env s called s.strRound future tail.normal
      ((escape (glmValueTail s.leadTrimmed value) ++ ['"']).map (.arg s.ledger.currentToolId) ++
        tail.events env s.config true s.ledger.currentToolId) tail.blocks := by
  unfold strRound
  by_cases trimmed : s.leadTrimmed = true
  · rw [if_pos trimmed, glmValueTail, if_pos trimmed]
    exact valueRound_kept mode started free wf known trimmed whole
  rw [if_neg trimmed, glmValueTail, if_neg trimmed]
  obtain ⟨value', left, within, same, untouched⟩ := lstrip_value whole
  simp only
  by_cases moved : lstrip s.buffer ≠ s.buffer
  · rw [if_pos moved]
    have free' : FreeOf [valClose] value' := fun tok mem occurs =>
      free tok mem (occurs.trans within.isInfix)
    refine StreamMachine.kept_on left (.pstr value' tail mode started free' wf known) rfl ?_ rfl
      (by simp [Idle, mode]) ?_
    · rw [same, glmValueTail, if_neg trimmed]
      rfl
    · have shorter : (lstrip s.buffer).length < s.buffer.length :=
        lt_of_le_of_ne (List.dropWhile_suffix _).length_le fun size =>
          moved ((List.dropWhile_suffix _).eq_of_length size)
      simp only [machine, mode, reduceCtorEq, if_false]
      omega
  · rw [if_neg moved, untouched (not_not.mp moved) nonempty]
    obtain ⟨left', normal', calls', blocks', kept⟩ := @valueRound_kept env
      { s with leadTrimmed := true } future called value tail mode started free wf known rfl whole
    exact ⟨left', normal', calls', blocks',
      { whole := kept.whole, plan := kept.plan, normal := kept.normal, calls := kept.calls
        fewer := kept.fewer, shorter := kept.shorter, stops := kept.stops, ends := kept.ends }⟩

theorem planned : (machine env).Planned Idle (GlmPlan env) where
  buffer s newText := rfl
  receive s newText left normal calls blocks plan := by
    cases plan with
    | idle text calls mode free wf known => exact .idle text calls mode free wf known
    | name c calls mode wf known => exact .name c calls mode wf known
    | invoke tail mode wf known =>
      exact @GlmPlan.invoke env { s with buffer := s.buffer ++ newText } tail mode wf known
    | key a tail mode arg wf known =>
      exact @GlmPlan.key env { s with buffer := s.buffer ++ newText } a tail mode arg wf known
    | preval a tail mode same arg wf known =>
      exact @GlmPlan.preval env { s with buffer := s.buffer ++ newText } a tail mode same arg wf known
    | pstr value tail mode started free wf known =>
      exact @GlmPlan.pstr env { s with buffer := s.buffer ++ newText } value tail mode started free
        wf known
    | pbuf value converted tail mode started free converts wf known =>
      exact @GlmPlan.pbuf env { s with buffer := s.buffer ++ newText } value converted tail mode
        started free converts wf known
  round s called future left normal calls blocks plan whole nonempty := by
    change ∃ turn, s.round env called = some turn ∧ _
    unfold round
    cases plan with
    | idle text calls mode free wf known =>
      rw [mode]
      exact ⟨_, rfl, idleRound_kept mode free wf known whole nonempty⟩
    | name c calls mode wf known =>
      rw [mode]
      exact ⟨_, rfl, nameRound_kept mode wf known whole⟩
    | invoke tail mode wf known =>
      rw [mode]
      exact ⟨_, rfl, invokeRound_kept mode wf known whole⟩
    | key a tail mode arg wf known =>
      rw [mode]
      exact ⟨_, rfl, keyRound_kept mode arg wf known whole⟩
    | preval a tail mode same arg wf known =>
      rw [mode]
      exact ⟨_, rfl, prevalRound_kept mode same arg wf known whole⟩
    | pstr value tail mode started free wf known =>
      rw [mode]
      exact ⟨_, rfl, strRound_kept mode started free wf known whole nonempty⟩
    | pbuf value converted tail mode started free converts wf known =>
      rw [mode]
      exact bufRound_kept mode started free converts wf known whole
  arrived s normal calls blocks plan := by
    generalize whole : ([] : List Char) = left at plan
    have close : eotToken ≠ [] := by decide
    have open_ : keyOpen ≠ [] := by decide
    cases plan with
    | idle text calls mode free wf known =>
      cases calls with
      | nil => rfl
      | cons c calls => exact absurd whole.symm (by simp [callsText, show botToken ≠ [] by decide])
    | name c calls mode wf known =>
      have absurd_ := whole.symm
      cases same : c.args <;> exact absurd absurd_ (by simp [same, argsText, close, open_])
    | invoke tail mode wf known =>
      have absurd_ := whole.symm
      cases same : tail.args <;>
        exact absurd absurd_ (by simp [GlmTail.text, same, argsText, close, open_])
    | key a tail mode arg wf known =>
      exact absurd whole.symm (by simp [show keyClose ≠ [] by decide])
    | preval a tail mode same arg wf known =>
      exact absurd whole.symm (by simp [show valOpen ≠ [] by decide])
    | pstr value tail mode started free wf known
    | pbuf value converted tail mode started free converts wf known =>
      exact absurd whole.symm (by simp [show valClose ≠ [] by decide])

end

end Glm47Stream

namespace Glm47Detector

/-- The calls of GLM-4.7, streamed in any pieces, are valid JSON that does not depend on the pieces, and
they are the calls of one-shot parsing when nothing in a call quotes the tag that ends it, no name has
a bracket and no text reads `null`. -/
theorem calls_stream_parity (env : ToolSetup) {before : List Char} {calls : List GlmCall}
    (free : FreeOf [botToken] before) (wf : ∀ c ∈ calls, c.Wf env) :
    ∃ sent, (Glm47Stream.machine env).StreamsCalls .start (before ++ callsText calls) calls.length
        sent ∧
      ((∀ c ∈ calls, c.Plain env) →
        SameCalls sent (detectAndParse env (before ++ callsText calls)).calls) := by
  refine ⟨calls.map (GlmCall.sent env), ?_, fun plain => detectAndParse_calls free wf plain⟩
  refine StreamMachine.streamsCalls_of_plan Glm47Stream.planned ?_ rfl
    (.idle before calls rfl free wf (by decide)) ?_
  · intro s left normal events plan
    generalize none_ : 0 = count at plan
    cases plan with
    | idle text calls mode free wf known =>
      obtain rfl : calls = [] := List.length_eq_zero_iff.mp none_.symm
      rfl
    | _ => exact absurd none_ (by simp [GlmTail.blocks])
  · intro call mem
    obtain ⟨c, -, rfl⟩ := List.mem_map.mp mem
    exact Option.isSome_iff_exists.mpr ⟨_, Json.loads_compact _⟩

def noteCall : GlmCall :=
  { head := "note\n".toList
    args := [{ rawKey := "text".toList, space := ['\n'], value := " <b>\n".toList, gap := ['\n'] }]
    after := "ok".toList }

theorem calls_stream_parity_note :
    ∃ sent, (Glm47Stream.machine noteSetup).StreamsCalls .start ("a".toList ++ callsText [noteCall]) 1
        sent ∧
      SameCalls sent (detectAndParse noteSetup ("a".toList ++ callsText [noteCall])).calls := by
  have wf : ∀ c ∈ [noteCall], c.Wf noteSetup :=
    List.forall_mem_singleton.mpr ⟨by decide, by decide, by decide,
      List.forall_mem_singleton.mpr ⟨by decide, by decide, by decide, by decide, by decide⟩,
      by decide⟩
  have plain : ∀ c ∈ [noteCall], c.Plain noteSetup :=
    List.forall_mem_singleton.mpr ⟨by decide, by decide, List.forall_mem_singleton.mpr (by decide)⟩
  obtain ⟨sent, streams, same⟩ := @calls_stream_parity noteSetup "a".toList _ (by decide) wf
  exact ⟨sent, streams, same plain⟩

/-- The second of two calls that arrive together is given with the next step only, a text that reads
`null` is streamed as that text where one-shot parsing returns no value, and a quoted end of a call
ends the call for one-shot parsing only. -/
theorem calls_stream_differs :
    let call (value : String) := "<tool_call>note\n<arg_key>text</arg_key><arg_value>" ++ value ++
      "</arg_value></tool_call>"
    let streamed (whole : String) := ((Glm47Stream.machine noteSetup).feed .start
      [whole.toList]).map fun (_, out) => callEvents out.calls
    let parsed (whole : String) :=
      (detectAndParse noteSetup whole.toList).calls.map ToolCallItem.parameters
    let sent (value : String) :=
      some (wholeCalls 0 [("note".toList, Json.compact [("text".toList, .str value.toList)])])
    let arguments (v : Json) := (Json.obj [("text".toList, v)]).dumps
    (streamed (call "a" ++ call "b") = sent "a" ∧ parsed (call "a" ++ call "b") =
        [arguments (.str "a".toList), arguments (.str "b".toList)]) ∧
      (streamed (call "null") = sent "null" ∧ parsed (call "null") = [arguments .null]) ∧
      (streamed (call "a</tool_call>b") = sent "a</tool_call>b" ∧
        parsed (call "a</tool_call>b") = [(Json.obj []).dumps]) := by
  intro call streamed parsed sent arguments
  have front : "<tool_call>note\n<arg_key>text</arg_key><arg_value>".toList = _ := String.toList_ofList
  have back : "</arg_value></tool_call>".toList = _ := String.toList_ofList
  simp only [streamed, parsed, call, String.toList_append, front, back]
  decide +kernel

end Glm47Detector

end FreeSwarm.Server
