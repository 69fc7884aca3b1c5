import FreeSwarm.Server.InvokeParamStream
import FreeSwarm.Server.StreamLoop

/-!
# What a stream of blocks sends

The texts made of ordinary text and complete blocks, as the lists of their parts, and what a stream of
one sends, however it is cut. The state of a stream and the part of the text that it has not decided
yet determine what is still to be sent (`Plan`): a turn of the loop sends a beginning of that and keeps
the rest, and once everything has arrived, every further step ends another block.
-/

namespace FreeSwarm.Server

open FreeSwarm.Foundation

/-! ## Texts -/

/-- A parameter: its opening tag, the name in the tag, its value, and what follows its closing tag. -/
structure PsParam where
  tag : List Char
  rawName : List Char
  value : List Char
  gap : List Char

/-- An invocation: its opening tag, the name in the tag, what follows the tag, the parameters, and
what follows the closing tag. -/
structure PsInvoke where
  tag : List Char
  rawName : List Char
  gap : List Char
  params : List PsParam
  after : List Char

/-- A block: what follows its opening marker, the invocations, and the ordinary text behind it. -/
structure PsBlock where
  gap : List Char
  invokes : List PsInvoke
  after : List Char

variable (g : InvokeParamGrammar)

def paramsText (params : List PsParam) (rest : List Char) : List Char :=
  params.foldr (fun p rest => p.tag ++ (p.value ++ (g.paramClose ++ (p.gap ++ rest)))) rest

def invokesText (invokes : List PsInvoke) (rest : List Char) : List Char :=
  invokes.foldr (fun i rest =>
    i.tag ++ (i.gap ++ paramsText g i.params (g.invokeClose ++ (i.after ++ rest)))) rest

def blocksText (blocks : List PsBlock) : List Char :=
  blocks.foldr (fun b rest =>
    g.outerOpen ++ (b.gap ++ invokesText g b.invokes (g.outerClose ++ (b.after ++ rest)))) []

def ordinaryText (blocks : List PsBlock) : List Char := blocks.flatMap PsBlock.after

namespace PsParam

variable (env : ToolSetup) (paramConfig : ParamConfig) (p : PsParam)

def key : List Char := strip p.rawName

def trimmed : List Char := g.trimTrailing (g.trimLeading p.value)

def Streamed : Prop :=
  schemaParamType env.py p.key paramConfig g.missingType ∈ stringTypes

instance (env : ToolSetup) (paramConfig : ParamConfig) (p : PsParam) :
    Decidable (p.Streamed g env paramConfig) := by
  unfold Streamed
  infer_instance

def sentValue : Option Json :=
  if p.Streamed g env paramConfig then some (.str (p.trimmed g))
  else g.convertValue env.py p.key (p.trimmed g) paramConfig

/-- The pair that is sent. -/
def member : List Char × Json :=
  (p.key, (p.sentValue g env paramConfig).getD .null)

/-- A parameter that is complete and whose value can be converted. -/
structure Wf : Prop where
  tag : IsTag g.paramOpenRe p.tag p.rawName
  opens : g.paramOpenPrefix <+: p.tag
  value : FreeOf [g.paramClose] p.value
  gap : FreeOf [g.paramOpenPrefix, g.invokeClose] p.gap
  converts : (p.sentValue g env paramConfig).isSome

end PsParam

namespace PsInvoke

def name (i : PsInvoke) : List Char := g.canonicalName (strip i.rawName)

def call (env : ToolSetup) (i : PsInvoke) : List Char × List Char :=
  (i.name g, Json.compact (i.params.map (PsParam.member g env (env.paramConfig (i.name g)))))

structure Wf (env : ToolSetup) (i : PsInvoke) : Prop where
  tag : IsTag g.invokeOpenRe i.tag i.rawName
  opens : g.invokeOpenPrefix <+: i.tag
  known : env.accepts (i.name g) = true
  gap : FreeOf [g.paramOpenPrefix, g.invokeClose] i.gap
  params : ∀ p ∈ i.params, p.Wf g env (env.paramConfig (i.name g))
  after : FreeOf [g.invokeOpenPrefix, g.outerClose] i.after

end PsInvoke

variable (env : ToolSetup)

structure PsBlock.Wf (b : PsBlock) : Prop where
  gap : FreeOf [g.invokeOpenPrefix, g.outerClose] b.gap
  invokes : ∀ i ∈ b.invokes, i.Wf g env
  after : FreeOf [g.outerOpen] b.after

def sentCalls (blocks : List PsBlock) : List (List Char × List Char) :=
  blocks.flatMap fun b => b.invokes.map (PsInvoke.call g env)

/-- The markers of a grammar tell themselves apart: each starts with the same character, which none
has again and no value is trimmed of. -/
structure InvokeParamGrammar.Lawful (g : InvokeParamGrammar) : Prop where
  outer : Headed '<' [g.outerOpen]
  block : Headed '<' [g.invokeOpenPrefix, g.outerClose]
  invoke : Headed '<' [g.paramOpenPrefix, g.invokeClose]
  param : Headed '<' [g.paramClose]
  blockApart : g.outerClose ≠ g.invokeOpenPrefix
  invokeApart : g.invokeClose ≠ g.paramOpenPrefix
  solid : '<' ∉ g.trim

theorem paramsText_append (params : List PsParam) (rest : List Char) :
    paramsText g params rest = paramsText g params [] ++ rest := by
  induction params with
  | nil => rfl
  | cons p params ih =>
    simp only [paramsText, List.foldr_cons, List.append_assoc] at ih ⊢
    rw [ih]

theorem invokesText_append (invokes : List PsInvoke) (rest : List Char) :
    invokesText g invokes rest =
      invokesText g invokes [] ++ rest := by
  induction invokes with
  | nil => rfl
  | cons i invokes ih =>
    simp only [invokesText, List.foldr_cons, List.append_assoc] at ih ⊢
    rw [ih, paramsText_append g, paramsText_append g i.params (_ ++ (_ ++ List.foldr _ [] _))]
    simp only [List.append_assoc]

def PsInvoke.item (index : Int) (i : PsInvoke) : ToolCallItem :=
  { toolIndex := index
    name := some (i.name g)
    parameters := (Json.obj (dictOf (i.params.map
      (PsParam.member g env (env.paramConfig (i.name g)))))).dumps }

theorem sameCalls_item (env : ToolSetup) (index : PsInvoke → Int) (invokes : List PsInvoke) :
    SameCalls (invokes.map (PsInvoke.call g env)) (invokes.map fun i => i.item g env (index i)) := by
  induction invokes with
  | nil => exact .nil
  | cons i invokes ih =>
    refine .cons ⟨rfl, _, Json.loads_compact _, ?_⟩ ih
    exact (Json.loads_compact_eq _).symm.trans (Json.loads_compact _)

/-! ## Trimming -/

section
variable {g} {front text : List Char}

theorem InvokeParamGrammar.trimTrailing_append
    (solid : ∀ c ∈ front.getLast?, c ∉ g.trim) (text : List Char) :
    g.trimTrailing (front ++ text) = front ++ g.trimTrailing text := by
  unfold InvokeParamGrammar.trimTrailing
  split_ifs with single
  · rcases List.eq_nil_or_concat text with rfl | ⟨text, c, rfl⟩
    · rw [List.append_nil]
      cases last : front.getLast? with
      | none =>
        rw [List.getLast?_eq_none_iff.mp last]
        rfl
      | some c => simp [solid c last]
    · rw [List.concat_eq_append, ← List.append_assoc]
      simp only [List.getLast?_append, List.getLast?_singleton, Option.some_or, List.dropLast_concat]
      split_ifs
      · rfl
      · rw [List.append_assoc]
  · rw [List.rdropWhile, List.reverse_append, List.rdropWhile, List.dropWhile_append]
    split_ifs with all
    · have kept : front.reverse.dropWhile (fun c => decide (c ∈ g.trim)) = front.reverse := by
        cases same : front.reverse with
        | nil => rfl
        | cons c rest =>
          have last : front.getLast? = some c := by
            rw [List.getLast?_eq_head?_reverse, same]
            rfl
          exact List.dropWhile_cons_of_neg (by simpa using solid c last)
      rw [kept, List.reverse_reverse, List.isEmpty_iff.mp all, List.reverse_nil, List.append_nil]
    · rw [List.reverse_append, List.reverse_reverse]

theorem rdropWhile_solid (trim text : List Char) :
    ∀ c ∈ (text.rdropWhile fun c => decide (c ∈ trim)).getLast?, c ∉ trim := by
  intro c last
  rw [List.rdropWhile, List.getLast?_reverse] at last
  have first := List.head?_dropWhile_not (fun c => decide (c ∈ trim)) text.reverse
  rw [Option.mem_def.mp last] at first
  simpa using first

end

/-! ## What is still to be sent -/

/-- What follows an invocation: text up to the next tag, further invocations, the closing marker, the
ordinary text behind it, and further blocks. -/
structure BlockTail where
  gap : List Char
  invokes : List PsInvoke
  after : List Char
  blocks : List PsBlock

/-- What follows a parameter. -/
structure InvokeTail where
  gap : List Char
  params : List PsParam
  block : BlockTail

namespace BlockTail

def text (t : BlockTail) : List Char :=
  t.gap ++ invokesText g t.invokes (g.outerClose ++ (t.after ++ blocksText g t.blocks))

def normal (t : BlockTail) : List Char := t.after ++ ordinaryText t.blocks

def calls (env : ToolSetup) (t : BlockTail) : List (List Char × List Char) :=
  t.invokes.map (PsInvoke.call g env) ++ sentCalls g env t.blocks

/-- Everything in it is complete. -/
structure Wf (env : ToolSetup) (t : BlockTail) : Prop where
  gap : FreeOf [g.invokeOpenPrefix, g.outerClose] t.gap
  invokes : ∀ i ∈ t.invokes, i.Wf g env
  after : FreeOf [g.outerOpen] t.after
  blocks : ∀ b ∈ t.blocks, b.Wf g env

end BlockTail

namespace InvokeTail

def text (t : InvokeTail) : List Char :=
  t.gap ++ paramsText g t.params (g.invokeClose ++ t.block.text g)

/-- What the rest of the invocation and the calls behind it send. -/
def events (env : ToolSetup) (paramConfig : ParamConfig) (started : Bool) (index : Int)
    (t : InvokeTail) : List CallEvent :=
  (argumentsTail started (t.params.map (PsParam.member g env paramConfig))).map (.arg index) ++
    wholeCalls (index + 1) (t.block.calls g env)

/-- Everything in it is complete. -/
structure Wf (env : ToolSetup) (paramConfig : ParamConfig) (t : InvokeTail) : Prop where
  gap : FreeOf [g.paramOpenPrefix, g.invokeClose] t.gap
  params : ∀ p ∈ t.params, p.Wf g env paramConfig
  block : t.block.Wf g env

end InvokeTail

def valueTail (leadTrimmed : Bool) (value : List Char) : List Char :=
  g.trimTrailing (if leadTrimmed then value else g.trimLeading value)

/-- The text that a state has not decided yet, the ordinary text and the calls that it has still to
give, and the blocks that have still to end. -/
inductive Plan (env : ToolSetup) (s : InvokeParamStream) :
    List Char → List Char → List CallEvent → Nat → Prop where
  | idle (text : List Char) (blocks : List PsBlock) (mode : s.mode = .idle)
      (free : FreeOf [g.outerOpen] text) (wf : ∀ b ∈ blocks, b.Wf g env)
      (known : -1 ≤ s.ledger.currentToolId) :
      Plan env s (text ++ blocksText g blocks) (text ++ ordinaryText blocks)
        (wholeCalls s.ledger.nextId (sentCalls g env blocks)) blocks.length
  | block (tail : BlockTail) (mode : s.mode = .block) (wf : tail.Wf g env)
      (known : -1 ≤ s.ledger.currentToolId) :
      Plan env s (tail.text g) tail.normal (wholeCalls s.ledger.nextId (tail.calls g env))
        (tail.blocks.length + 1)
  | invoke (tail : InvokeTail) (mode : s.mode = .invoke) (wf : tail.Wf g env s.paramConfig)
      (known : 0 ≤ s.ledger.currentToolId) :
      Plan env s (tail.text g) tail.block.normal
        (tail.events g env s.paramConfig s.argsStarted s.ledger.currentToolId)
        (tail.block.blocks.length + 1)
  | pstr (value : List Char) (tail : InvokeTail) (mode : s.mode = .pstr)
      (started : s.argsStarted = true) (free : FreeOf [g.paramClose] value)
      (wf : tail.Wf g env s.paramConfig) (known : 0 ≤ s.ledger.currentToolId) :
      Plan env s (value ++ (g.paramClose ++ tail.text g)) tail.block.normal
        ((escape (valueTail g s.leadTrimmed value) ++ ['"']).map (.arg s.ledger.currentToolId) ++
          tail.events g env s.paramConfig true s.ledger.currentToolId)
        (tail.block.blocks.length + 1)
  | pbuf (value : List Char) (converted : Json) (tail : InvokeTail) (mode : s.mode = .pbuf)
      (started : s.argsStarted = true) (free : FreeOf [g.paramClose] value)
      (converts : g.convertValue env.py s.key (g.trimTrailing (g.trimLeading value)) s.paramConfig =
        some converted)
      (wf : tail.Wf g env s.paramConfig) (known : 0 ≤ s.ledger.currentToolId) :
      Plan env s (value ++ (g.paramClose ++ tail.text g)) tail.block.normal
        ((s.lead ++ quote s.key ++ [':'] ++ converted.dumps).map (.arg s.ledger.currentToolId) ++
          tail.events g env s.paramConfig true s.ledger.currentToolId)
        (tail.block.blocks.length + 1)

/-- A turn keeps the plan: it gives a beginning of what is to be given, and what it leaves determines
the rest. -/
structure KeptTo (env : ToolSetup) (s : InvokeParamStream) (called : Bool) (turn : PsTurn)
    (future normal : List Char) (calls : List CallEvent) (blocks : Nat)
    (left' normal' : List Char) (calls' : List CallEvent) (blocks' : Nat) : Prop where
  whole : turn.next.buffer ++ future = left'
  plan : Plan g env turn.next left' normal' calls' blocks'
  normal : normal = turn.out.normalText ++ normal'
  calls : calls = callEvents turn.out.calls ++ calls'
  fewer : blocks' ≤ blocks
  shorter : turn.again = true → turn.next.buffer.length < s.buffer.length
  stops : turn.again = false → future = [] → blocks' = 0 ∨ (s.mode = .idle ∧ called = true)
  ends : turn.next.mode = .idle → (s.mode = .idle ∧ turn.out.calls = []) ∨ blocks' < blocks

def Kept (env : ToolSetup) (s : InvokeParamStream) (called : Bool) (turn : PsTurn)
    (future normal : List Char) (calls : List CallEvent) (blocks : Nat) : Prop :=
  ∃ left' normal' calls' blocks',
    KeptTo g env s called turn future normal calls blocks left' normal' calls' blocks'

/-! ## A turn -/

section
variable {g} {env : ToolSetup} {s : InvokeParamStream} {future : List Char} {called : Bool}

variable {calls : List CallEvent} {tail : InvokeTail} {value rest buffer : List Char}

theorem kept_stop {left normal : List Char} {blocks : Nat}
    (plan : Plan g env s left normal calls blocks) (whole : s.buffer ++ future = left)
    (stops : future = [] → blocks = 0 ∨ (s.mode = .idle ∧ called = true)) :
    Kept g env s called s.stop future normal calls blocks :=
  ⟨left, normal, calls, blocks,
    { whole := whole, plan := plan, normal := rfl, calls := rfl, fewer := le_rfl
      shorter := fun again => absurd again (by simp [InvokeParamStream.stop])
      stops := fun _ => stops, ends := fun idle => .inl ⟨idle, rfl⟩ }⟩

theorem kept_on {turn : PsTurn} {left normal : List Char} {calls' : List CallEvent} {blocks : Nat}
    (whole : turn.next.buffer ++ future = left) (plan : Plan g env turn.next left normal calls' blocks)
    (silent : turn.out.normalText = []) (sent : calls = callEvents turn.out.calls ++ calls')
    (again : turn.again = true) (busy : turn.next.mode ≠ .idle)
    (shorter : turn.next.buffer.length < s.buffer.length) :
    Kept g env s called turn future normal calls blocks :=
  ⟨left, normal, calls', blocks,
    { whole := whole, plan := plan, normal := by rw [silent, List.nil_append], calls := sent
      fewer := le_rfl, shorter := fun _ => shorter
      stops := fun stays => absurd (again.symm.trans stays) Bool.noConfusion
      ends := fun idle => absurd idle busy }⟩

theorem idleRound_kept (lawful : g.Lawful) {text : List Char} {blocks : List PsBlock}
    (mode : s.mode = .idle) (free : FreeOf [g.outerOpen] text) (wf : ∀ b ∈ blocks, b.Wf g env)
    (known : -1 ≤ s.ledger.currentToolId)
    (whole : s.buffer ++ future = text ++ blocksText g blocks) (nonempty : s.buffer ≠ []) :
    Kept g env s called (s.idleRound g called) future (text ++ ordinaryText blocks)
      (wholeCalls s.ledger.nextId (sentCalls g env blocks)) blocks.length := by
  have mem : g.outerOpen ∈ [g.outerOpen] := List.mem_singleton_self _
  unfold InvokeParamStream.idleRound
  split_ifs with deferred
  · exact kept_stop (.idle text blocks mode free wf known) whole
      fun _ => .inr ⟨mode, deferred⟩
  have hold := endsWithPartialToken_eq lawful.outer mem s.buffer
  cases found : findSub g.outerOpen s.buffer with
  | none =>
    obtain ⟨text', same, left⟩ : ∃ text',
        text = s.buffer.take (s.buffer.length - partialLen [g.outerOpen] s.buffer) ++ text' ∧
          s.buffer.drop (s.buffer.length - partialLen [g.outerOpen] s.buffer) ++ future =
            text' ++ blocksText g blocks := by
      cases blocks with
      | nil =>
        change s.buffer ++ future = text ++ [] at whole
        rw [List.append_nil] at whole
        refine ⟨_, ?_, (List.append_nil _).symm⟩
        rw [← List.append_assoc, List.take_append_drop, whole]
      | cons b blocks => exact hold_ahead mem whole found
    rw [← hold] at same left
    refine ⟨_, _, _, _,
      { whole := left, plan := .idle text' blocks mode (same ▸ free).right wf known
        normal := ?_, calls := rfl, fewer := le_rfl
        shorter := fun again => absurd again (by simp)
        stops := fun _ arrived => ?_, ends := fun _ => .inl ⟨mode, rfl⟩ }⟩
    · conv_lhs => rw [same, List.append_assoc]
    · cases blocks with
      | nil => exact .inl rfl
      | cons b blocks => exact absurd arrived (ne_nil_of_unseen whole found)
  | some pos =>
    cases blocks with
    | nil =>
      change s.buffer ++ future = text ++ [] at whole
      rw [List.append_nil] at whole
      have occurs : g.outerOpen <:+: s.buffer := by
        by_contra absent
        rw [findSub_eq_none_iff.mpr absent] at found
        exact absurd found (by simp)
      exact absurd (occurs.trans (whole ▸ (List.prefix_append s.buffer future).isInfix))
        (free _ mem)
    | cons b blocks =>
      obtain ⟨rfl, taken, left⟩ := lawful.outer.found_ahead mem free whole found
      have dropped := drop_ahead whole taken
      have positive := List.length_pos_iff.mpr nonempty
      have room := findSub_room (lawful.outer.ne_nil mem) found
      have long := List.length_pos_iff.mpr (lawful.outer.ne_nil mem)
      simp only
      split_ifs with some_
      · refine ⟨_, _, _, _,
          { whole := dropped
            plan := .idle [] (b :: blocks) mode (fun tok mem occurs => ?_) wf known
            normal := ?_, calls := rfl, fewer := le_rfl, shorter := fun _ => ?_
            stops := fun again => absurd again (by simp), ends := fun _ => .inl ⟨mode, rfl⟩ }⟩
        · exact lawful.outer.ne_nil mem (List.infix_nil.mp occurs)
        · rw [List.nil_append]
          exact congrArg (· ++ ordinaryText (b :: blocks)) taken.symm
        · simp only [List.length_drop]
          omega
      · obtain rfl : text = [] := List.length_eq_zero_iff.mp (by omega)
        obtain ⟨here, later⟩ := List.forall_mem_cons.mp wf
        rw [List.length_nil, Nat.zero_add] at left
        refine kept_on left (.block ⟨b.gap, b.invokes, b.after, blocks⟩ rfl
          ⟨here.gap, here.invokes, here.after, later⟩ known) rfl rfl rfl (by simp) ?_
        simp only [List.length_drop]
        omega

theorem keep_kept {left' normal : List Char} {blocks hold : Nat}
    (mode : s.mode ≠ .idle)
    (plan : Plan g env { s with buffer := s.buffer.drop (s.buffer.length - hold) } left' normal calls
      blocks)
    (whole : s.buffer.drop (s.buffer.length - hold) ++ future = left') (waits : future ≠ []) :
    Kept g env s called (s.keep hold) future normal calls blocks :=
  ⟨left', normal, calls, blocks,
    { whole := whole, plan := plan, normal := rfl, calls := rfl, fewer := le_rfl
      shorter := fun again => absurd again (by simp [InvokeParamStream.keep])
      stops := fun _ arrived => absurd arrived waits
      ends := fun idle => absurd idle mode }⟩

theorem beginInvoke_kept {i : PsInvoke} {tail : BlockTail} {rest : List Char} (wf : i.Wf g env)
    (later : tail.Wf g env) (known : -1 ≤ s.ledger.currentToolId)
    (whole : rest ++ future = i.gap ++ paramsText g i.params (g.invokeClose ++ tail.text g))
    (shorter : rest.length < s.buffer.length) :
    Kept g env s called (s.beginInvoke g env i.rawName rest) future tail.normal
      (wholeCalls s.ledger.nextId (i.call g env :: tail.calls g env)) (tail.blocks.length + 1) := by
  have accepted : env.accepts (g.canonicalName (strip i.rawName)) = true := wf.known
  unfold InvokeParamStream.beginInvoke
  simp only [accepted, if_true]
  refine kept_on whole (.invoke ⟨i.gap, i.params, tail⟩ rfl ⟨wf.gap, wf.params, later⟩
    (CallLedger.nextId_nonneg known)) rfl ?_ rfl (by simp) shorter
  rw [CallLedger.callEvents_open]
  rfl

theorem blockRound_kept (lawful : g.Lawful) {tail : BlockTail} (mode : s.mode = .block)
    (wf : tail.Wf g env) (known : -1 ≤ s.ledger.currentToolId)
    (whole : s.buffer ++ future = tail.text g) :
    Kept g env s called (s.blockRound g env) future tail.normal
      (wholeCalls s.ledger.nextId (tail.calls g env)) (tail.blocks.length + 1) := by
  have memOpen : g.invokeOpenPrefix ∈ [g.invokeOpenPrefix, g.outerClose] := by simp
  have memClose : g.outerClose ∈ [g.invokeOpenPrefix, g.outerClose] := by simp
  have some_ := lawful.block.ne_nil memClose
  have notIdle : s.mode ≠ .idle := by simp [mode]
  obtain ⟨gap, invokes, after, blocks⟩ := tail
  unfold InvokeParamStream.blockRound
  simp only [if_neg some_, max_endsWithPartialToken lawful.block]
  cases invokes with
  | nil =>
    have whole' : s.buffer ++ future = gap ++ (g.outerClose ++ (after ++ blocksText g blocks)) := whole
    rcases nextTag_closes lawful.block memClose memOpen lawful.blockApart.symm wf.gap whole' with
      ⟨closes, -, left⟩ | ⟨neither, unseen⟩
    · rw [closes]
      have room : gap.length + g.outerClose.length ≤ s.buffer.length := by
        have size := congrArg List.length left
        have size' := congrArg List.length whole'
        simp only [List.length_append, List.length_drop] at size size'
        omega
      refine ⟨_, _, _, _,
        { whole := left, plan := .idle after blocks rfl wf.after wf.blocks known
          normal := rfl, calls := rfl, fewer := Nat.le_succ _, shorter := fun _ => ?_
          stops := fun again => absurd again (by simp)
          ends := fun _ => .inr (Nat.lt_succ_self _) }⟩
      have long := List.length_pos_iff.mpr some_
      simp only [List.length_drop]
      omega
    · rw [neither]
      obtain ⟨gap', same, left⟩ := hold_ahead memClose whole' unseen
      exact keep_kept notIdle
        (.block ⟨gap', [], after, blocks⟩ mode
          ⟨(same ▸ wf.gap).right, wf.invokes, wf.after, wf.blocks⟩ known)
        left (ne_nil_of_unseen whole' unseen)
  | cons i invokes =>
    obtain ⟨here, later⟩ := List.forall_mem_cons.mp wf.invokes
    obtain ⟨tagRest, htag⟩ := here.opens
    have whole' : s.buffer ++ future = gap ++ (g.invokeOpenPrefix ++ (tagRest ++
        (i.gap ++ paramsText g i.params (g.invokeClose ++ (i.after ++ invokesText g invokes
          (g.outerClose ++ (after ++ blocksText g blocks))))))) := by
      rw [← List.append_assoc g.invokeOpenPrefix, htag]
      exact whole
    rcases nextTag_opens lawful.block memClose memOpen lawful.blockApart wf.gap whole' with
      ⟨opens, taken, -⟩ | ⟨neither, unseen⟩
    · rw [opens]
      have dropped := drop_ahead whole' taken
      rw [← List.append_assoc g.invokeOpenPrefix, htag] at dropped
      rcases here.tag.search dropped with ⟨rest, found, whole'', left⟩ | ⟨absent, short⟩
      · simp only [found]
        refine @beginInvoke_kept g env s future called i ⟨i.after, invokes, after, blocks⟩ rest here
          ⟨here.after, later, wf.after, wf.blocks⟩ known left ?_
        have size := congrArg List.length whole''
        have long : 0 < i.tag.length := by
          have long' := List.length_pos_iff.mpr (lawful.block.ne_nil memOpen)
          rw [← htag, List.length_append]
          omega
        rw [List.length_drop, List.length_append] at size
        omega
      · simp only [absent]
        refine kept_stop (.block ⟨gap, i :: invokes, after, blocks⟩ mode wf known) whole
          fun arrived => ?_
        have size := congrArg List.length dropped
        rw [arrived, List.append_nil, List.length_append] at size
        omega
    · rw [neither]
      obtain ⟨gap', same, left⟩ := hold_ahead memOpen whole' unseen
      rw [← List.append_assoc g.invokeOpenPrefix, htag] at left
      exact keep_kept notIdle
        (.block ⟨gap', i :: invokes, after, blocks⟩ mode
          ⟨(same ▸ wf.gap).right, wf.invokes, wf.after, wf.blocks⟩ known)
        left (ne_nil_of_unseen whole' unseen)

theorem beginParam_kept {p : PsParam} {tail : InvokeTail} {rest : List Char}
    (wf : p.Wf g env s.paramConfig) (later : tail.Wf g env s.paramConfig)
    (known : 0 ≤ s.ledger.currentToolId)
    (whole : rest ++ future = p.value ++ (g.paramClose ++ tail.text g))
    (shorter : rest.length < s.buffer.length) :
    Kept g env s called (s.beginParam g env p.rawName rest) future tail.block.normal
      (InvokeTail.events g env s.paramConfig s.argsStarted s.ledger.currentToolId
        { tail with params := p :: tail.params })
      (tail.block.blocks.length + 1) := by
  have events : InvokeTail.events g env s.paramConfig s.argsStarted s.ledger.currentToolId
        { tail with params := p :: tail.params } =
      ((if s.argsStarted then [','] else ['\x7b']) ++ quote p.key ++ [':'] ++
          (p.member g env s.paramConfig).2.dumps).map (.arg s.ledger.currentToolId) ++
        tail.events g env s.paramConfig true s.ledger.currentToolId := by
    unfold InvokeTail.events
    rw [List.map_cons, PsParam.member, argumentsTail_cons, List.map_append, List.append_assoc]
  unfold InvokeParamStream.beginParam
  simp only
  by_cases streamed : p.Streamed g env s.paramConfig
  · rw [if_pos (show schemaParamType env.py (strip p.rawName) s.paramConfig g.missingType ∈
      stringTypes from streamed)]
    have sent : (p.member g env s.paramConfig).2 = .str (p.trimmed g) := by
      rw [PsParam.member, PsParam.sentValue, if_pos streamed]
      rfl
    refine kept_on whole (.pstr p.value tail rfl rfl wf.value later (by simpa using known)) rfl ?_ rfl
      (by simp) shorter
    rw [events, sent]
    simp [Json.dumps, quote, valueTail, PsParam.trimmed, PsParam.key]
  · rw [if_neg (show schemaParamType env.py (strip p.rawName) s.paramConfig g.missingType ∉
      stringTypes from streamed)]
    obtain ⟨converted, converts⟩ := Option.isSome_iff_exists.mp wf.converts
    have sent : (p.member g env s.paramConfig).2 = converted := by
      rw [PsParam.member, converts]
      rfl
    rw [PsParam.sentValue, if_neg streamed] at converts
    refine kept_on whole (.pbuf p.value converted tail rfl rfl wf.value converts later known) rfl ?_ rfl
      (by simp) shorter
    rw [events, sent]
    rfl

theorem endInvoke_kept {tail : BlockTail} {rest : List Char} (wf : tail.Wf g env)
    (known : 0 ≤ s.ledger.currentToolId) (whole : rest ++ future = tail.text g)
    (shorter : rest.length < s.buffer.length) :
    Kept g env s called (s.endInvoke rest) future tail.normal
      ((argumentsTail s.argsStarted []).map (.arg s.ledger.currentToolId) ++
        wholeCalls (s.ledger.currentToolId + 1) (tail.calls g env))
      (tail.blocks.length + 1) := by
  have known' : -1 ≤ (s.ledger.emit (if s.argsStarted then ['\x7d'] else
      ['\x7b', '\x7d'])).1.updatePrev.next.currentToolId := by
    simp
    omega
  refine kept_on whole (.block tail rfl wf known') rfl ?_ rfl (by simp [InvokeParamStream.endInvoke])
    shorter
  have next : (s.endInvoke rest).next.ledger.nextId = s.ledger.currentToolId + 1 := by
    have id : (s.endInvoke rest).next.ledger.currentToolId = s.ledger.currentToolId + 1 := by
      simp [InvokeParamStream.endInvoke]
    rw [CallLedger.nextId_of_nonneg (by omega), id]
  have sent : callEvents (s.endInvoke rest).out.calls =
      (argumentsTail s.argsStarted []).map (.arg s.ledger.currentToolId) := by
    rw [argumentsTail_nil]
    exact CallLedger.callEvents_emit _ _
  rw [next, sent]

theorem invokeRound_kept (lawful : g.Lawful) (mode : s.mode = .invoke)
    (wf : tail.Wf g env s.paramConfig) (known : 0 ≤ s.ledger.currentToolId)
    (whole : s.buffer ++ future = tail.text g) :
    Kept g env s called (s.invokeRound g env false) future tail.block.normal
      (tail.events g env s.paramConfig s.argsStarted s.ledger.currentToolId)
      (tail.block.blocks.length + 1) := by
  have memOpen : g.paramOpenPrefix ∈ [g.paramOpenPrefix, g.invokeClose] := by simp
  have memClose : g.invokeClose ∈ [g.paramOpenPrefix, g.invokeClose] := by simp
  have notIdle : s.mode ≠ .idle := by simp [mode]
  obtain ⟨gap, params, block⟩ := tail
  unfold InvokeParamStream.invokeRound
  simp only [max_endsWithPartialToken lawful.invoke, Bool.false_eq_true, if_false]
  cases params with
  | nil =>
    have whole' : s.buffer ++ future = gap ++ (g.invokeClose ++ block.text g) := whole
    rcases nextTag_closes lawful.invoke memClose memOpen lawful.invokeApart.symm wf.gap whole' with
      ⟨closes, -, left⟩ | ⟨neither, unseen⟩
    · rw [closes]
      have room : gap.length + g.invokeClose.length ≤ s.buffer.length := by
        have size := congrArg List.length left
        have size' := congrArg List.length whole'
        simp only [List.length_append, List.length_drop] at size size'
        omega
      refine endInvoke_kept wf.block known left ?_
      have long := List.length_pos_iff.mpr (lawful.invoke.ne_nil memClose)
      simp only [List.length_drop]
      omega
    · rw [neither]
      obtain ⟨gap', same, left⟩ := hold_ahead memClose whole' unseen
      exact keep_kept notIdle
        (.invoke ⟨gap', [], block⟩ mode ⟨(same ▸ wf.gap).right, wf.params, wf.block⟩ known)
        left (ne_nil_of_unseen whole' unseen)
  | cons p params =>
    obtain ⟨here, later⟩ := List.forall_mem_cons.mp wf.params
    obtain ⟨tagRest, htag⟩ := here.opens
    have whole' : s.buffer ++ future = gap ++ (g.paramOpenPrefix ++ (tagRest ++
        (p.value ++ (g.paramClose ++ (p.gap ++ paramsText g params
          (g.invokeClose ++ block.text g)))))) := by
      rw [← List.append_assoc g.paramOpenPrefix, htag]
      exact whole
    rcases nextTag_opens lawful.invoke memClose memOpen lawful.invokeApart wf.gap whole' with
      ⟨opens, taken, -⟩ | ⟨neither, unseen⟩
    · rw [opens]
      have dropped := drop_ahead whole' taken
      rw [← List.append_assoc g.paramOpenPrefix, htag] at dropped
      rcases here.tag.search dropped with ⟨rest, found, whole'', left⟩ | ⟨absent, short⟩
      · simp only [found]
        refine @beginParam_kept g env s future called p ⟨p.gap, params, block⟩ rest here
          ⟨here.gap, later, wf.block⟩ known left ?_
        have size := congrArg List.length whole''
        have long : 0 < p.tag.length := by
          have long' := List.length_pos_iff.mpr (lawful.invoke.ne_nil memOpen)
          rw [← htag, List.length_append]
          omega
        rw [List.length_drop, List.length_append] at size
        omega
      · simp only [absent]
        refine kept_stop (.invoke ⟨gap, p :: params, block⟩ mode wf known) whole fun arrived => ?_
        have size := congrArg List.length dropped
        rw [arrived, List.append_nil, List.length_append] at size
        omega
    · rw [neither]
      obtain ⟨gap', same, left⟩ := hold_ahead memOpen whole' unseen
      rw [← List.append_assoc g.paramOpenPrefix, htag] at left
      exact keep_kept notIdle
        (.invoke ⟨gap', p :: params, block⟩ mode ⟨(same ▸ wf.gap).right, wf.params, wf.block⟩ known)
        left (ne_nil_of_unseen whole' unseen)

theorem valueRound_kept (lawful : g.Lawful) {value : List Char} {tail : InvokeTail}
    (mode : s.mode = .pstr) (started : s.argsStarted = true) (free : FreeOf [g.paramClose] value)
    (wf : tail.Wf g env s.paramConfig) (known : 0 ≤ s.ledger.currentToolId)
    (trimmed : s.leadTrimmed = true)
    (whole : s.buffer ++ future = value ++ (g.paramClose ++ tail.text g)) :
    Kept g env s called (s.valueRound g) future tail.block.normal
      ((escape (g.trimTrailing value) ++ ['"']).map (.arg s.ledger.currentToolId) ++
        tail.events g env s.paramConfig true s.ledger.currentToolId)
      (tail.block.blocks.length + 1) := by
  have mem : g.paramClose ∈ [g.paramClose] := List.mem_singleton_self _
  have long := List.length_pos_iff.mpr (lawful.param.ne_nil mem)
  unfold InvokeParamStream.valueRound
  cases found : findSub g.paramClose s.buffer with
  | none =>
    obtain ⟨value', same, left⟩ := hold_ahead mem whole found
    rw [← endsWithPartialToken_eq lawful.param mem] at same left
    generalize s.buffer.length - endsWithPartialToken s.buffer g.paramClose = safe at *
    simp only
    -- What is sent ends before the characters that may still be trimmed.
    obtain ⟨blank, hblank⟩ := List.rdropWhile_prefix (fun c => decide (c ∈ g.trim))
      (s.buffer.take safe)
    have solid := rdropWhile_solid g.trim (s.buffer.take safe)
    generalize (s.buffer.take safe).rdropWhile (fun c => decide (c ∈ g.trim)) = emitNow at *
    have buffer : s.buffer = emitNow ++ (blank ++ s.buffer.drop safe) := by
      rw [← List.append_assoc, hblank, List.take_append_drop]
    have value_ : value = emitNow ++ (blank ++ value') := by
      rw [← List.append_assoc, hblank]
      exact same
    have dropped : s.buffer.drop emitNow.length = blank ++ s.buffer.drop safe := by
      conv_lhs => rw [buffer]
      exact List.drop_left
    have left' : s.buffer.drop emitNow.length ++ future =
        (blank ++ value') ++ (g.paramClose ++ tail.text g) := by
      rw [dropped, List.append_assoc, left, List.append_assoc]
    have known' : 0 ≤ (s.ledger.emit (escape emitNow)).1.currentToolId := by simpa using known
    refine ⟨_, _, _, _,
      { whole := left'
        plan := .pstr (blank ++ value') tail mode started (value_ ▸ free).right wf known'
        normal := rfl, calls := ?_, fewer := le_rfl
        shorter := fun again => absurd again (by simp)
        stops := fun _ arrived => absurd arrived (ne_nil_of_unseen whole found)
        ends := fun idle => absurd (show s.mode = .idle from idle) (by simp [mode]) }⟩
    rw [value_, InvokeParamGrammar.trimTrailing_append solid, escape_append]
    simp [valueTail, trimmed]
  | some pos =>
    obtain ⟨rfl, taken, left⟩ := lawful.param.found_ahead mem free whole found
    have room := findSub_room (lawful.param.ne_nil mem) found
    simp only [taken]
    have known' : 0 ≤ (s.ledger.emit (escape (g.trimTrailing value) ++
        ['"'])).1.updatePrev.currentToolId := by
      simpa using known
    refine kept_on left (.invoke tail rfl wf known') rfl ?_ rfl (by simp) ?_
    · simp [started]
    · simp only [List.length_drop]
      omega

theorem head_of_closing (lawful : g.Lawful) {value rest : List Char} {c : Char} {buffer : List Char}
    (whole : c :: buffer ++ future = value ++ (g.paramClose ++ rest)) (trims : c ∈ g.trim) :
    ∃ value', value = c :: value' ∧ buffer ++ future = value' ++ (g.paramClose ++ rest) := by
  cases value with
  | nil =>
    have head := lawful.param.head g.paramClose (List.mem_singleton_self _)
    have first := congrArg List.head? whole
    simp only [List.nil_append, List.head?_append, head, List.head?_cons, Option.some_or] at first
    cases first
    exact absurd trims lawful.solid
  | cons c' value =>
    obtain ⟨rfl, later⟩ := List.cons.inj whole
    exact ⟨value, rfl, later⟩

theorem dropWhile_value (lawful : g.Lawful)
    (whole : buffer ++ future = value ++ (g.paramClose ++ rest)) :
    ∃ value', buffer.dropWhile (· ∈ g.trim) ++ future = value' ++ (g.paramClose ++ rest) ∧
      value' <:+ value ∧
      value.dropWhile (· ∈ g.trim) = value'.dropWhile (· ∈ g.trim) := by
  induction buffer generalizing value with
  | nil => exact ⟨value, whole, List.suffix_rfl, rfl⟩
  | cons c buffer ih =>
    by_cases trims : c ∈ g.trim
    · obtain ⟨value', rfl, later⟩ := head_of_closing lawful whole trims
      obtain ⟨value'', left, within, same⟩ := ih later
      rw [List.dropWhile_cons_of_pos (by simpa using trims)]
      refine ⟨value'', left, within.trans (List.suffix_cons _ _), ?_⟩
      rw [List.dropWhile_cons_of_pos (by simpa using trims)]
      exact same
    · rw [List.dropWhile_cons_of_neg (by simpa using trims)]
      exact ⟨value, whole, List.suffix_rfl, rfl⟩

theorem dropWhile_of_head {c : Char}
    (stays : c ∉ g.trim) (whole : c :: buffer = value ++ (g.paramClose ++ rest)) :
    value.dropWhile (· ∈ g.trim) = value := by
  cases value with
  | nil => rfl
  | cons c' value =>
    obtain ⟨rfl, -⟩ := List.cons.inj whole
    exact List.dropWhile_cons_of_neg (by simpa using stays)

theorem strRound_kept (lawful : g.Lawful) {value : List Char}
    (mode : s.mode = .pstr) (started : s.argsStarted = true) (free : FreeOf [g.paramClose] value)
    (wf : tail.Wf g env s.paramConfig) (known : 0 ≤ s.ledger.currentToolId)
    (whole : s.buffer ++ future = value ++ (g.paramClose ++ tail.text g)) (nonempty : s.buffer ≠ []) :
    Kept g env s called (s.strRound g) future tail.block.normal
      ((escape (valueTail g s.leadTrimmed value) ++ ['"']).map (.arg s.ledger.currentToolId) ++
        tail.events g env s.paramConfig true s.ledger.currentToolId)
      (tail.block.blocks.length + 1) := by
  unfold InvokeParamStream.strRound
  by_cases trimmed : s.leadTrimmed = true
  · rw [if_pos trimmed]
    have kept := @valueRound_kept g env s future called lawful value tail mode started free wf known
      trimmed whole
    simpa [valueTail, trimmed] using kept
  rw [if_neg trimmed]
  simp only
  obtain ⟨c, buffer, cons⟩ := List.exists_cons_of_ne_nil nonempty
  have untouched (same : g.trimLeading value = value) :
      Kept g env s called ({ s with leadTrimmed := true }.valueRound g) future tail.block.normal
        ((escape (valueTail g s.leadTrimmed value) ++ ['"']).map (.arg s.ledger.currentToolId) ++
          tail.events g env s.paramConfig true s.ledger.currentToolId)
        (tail.block.blocks.length + 1) := by
    have kept := @valueRound_kept g env { s with leadTrimmed := true } future called lawful value
      tail mode started free wf known rfl whole
    have same' : valueTail g s.leadTrimmed value = g.trimTrailing value := by
      rw [valueTail, if_neg trimmed, same]
    rw [same']
    obtain ⟨left', normal', calls', blocks', kept⟩ := kept
    exact ⟨left', normal', calls', blocks',
      { whole := kept.whole, plan := kept.plan, normal := kept.normal, calls := kept.calls
        fewer := kept.fewer, shorter := kept.shorter, stops := kept.stops, ends := kept.ends }⟩
  have moved {value' : List Char} {leadTrimmed' : Bool}
      (left : g.trimLeading s.buffer ++ future = value' ++ (g.paramClose ++ tail.text g))
      (within : value' <:+ value)
      (same : g.trimTrailing (g.trimLeading value) = valueTail g leadTrimmed' value')
      (shorter : (g.trimLeading s.buffer).length < s.buffer.length) :
      Kept g env s called
        { next := { s with buffer := g.trimLeading s.buffer, leadTrimmed := leadTrimmed' }
          out := .empty, again := true } future tail.block.normal
        ((escape (valueTail g s.leadTrimmed value) ++ ['"']).map (.arg s.ledger.currentToolId) ++
          tail.events g env s.paramConfig true s.ledger.currentToolId)
        (tail.block.blocks.length + 1) := by
    have free' : FreeOf [g.paramClose] value' := fun tok mem occurs =>
      free tok mem (occurs.trans within.isInfix)
    refine kept_on left (.pstr value' tail mode started free' wf known) rfl ?_ rfl (by simp [mode]) shorter
    rw [valueTail, if_neg trimmed, same]
    rfl
  rw [cons] at whole
  by_cases single : g.trimSingle = true
  · by_cases trims : c ∈ g.trim
    · obtain ⟨value', rfl, later⟩ := head_of_closing lawful whole trims
      have leading : g.trimLeading s.buffer = buffer := by
        rw [cons, InvokeParamGrammar.trimLeading, if_pos single]
        exact if_pos trims
      have leading' : g.trimLeading (c :: value') = value' := by
        rw [InvokeParamGrammar.trimLeading, if_pos single]
        exact if_pos trims
      rw [if_pos (by rw [leading, cons]; exact (List.cons_ne_self c buffer).symm)]
      refine moved (by rw [leading]; exact later) (List.suffix_cons _ _) ?_
        (by rw [leading, cons]; simp)
      rw [leading', single]
      rfl
    · have leading : g.trimLeading s.buffer = s.buffer := by
        rw [cons, InvokeParamGrammar.trimLeading, if_pos single]
        exact if_neg trims
      rw [if_neg (by simp [leading])]
      refine untouched ?_
      unfold InvokeParamGrammar.trimLeading
      rw [if_pos single]
      cases value with
      | nil => rfl
      | cons c' value =>
        obtain ⟨rfl, -⟩ := List.cons.inj whole
        exact if_neg trims
  · have leading (text : List Char) : g.trimLeading text = text.dropWhile (· ∈ g.trim) := by
      unfold InvokeParamGrammar.trimLeading
      rw [if_neg single]
    by_cases trims : c ∈ g.trim
    · obtain ⟨value', left, within, same⟩ := dropWhile_value lawful whole
      have shorter : (g.trimLeading s.buffer).length < s.buffer.length := by
        rw [leading, cons, List.dropWhile_cons_of_pos (by simpa using trims), List.length_cons]
        exact Nat.lt_succ_of_le (List.dropWhile_suffix _).length_le
      rw [if_pos fun same' => by rw [same'] at shorter; omega]
      refine moved (by rw [leading, cons]; exact left) within ?_ shorter
      rw [leading, same, valueTail, leading]
      split_ifs with done
      · -- Something is left, which starts with a character that stays.
        have rest : g.trimLeading s.buffer ≠ [] := by
          intro empty
          rw [leading] at empty
          rw [empty] at done
          exact absurd done (by simp [single])
        obtain ⟨c', buffer', cons'⟩ := List.exists_cons_of_ne_nil rest
        rw [leading, cons] at cons'
        have stays : c' ∉ g.trim := by
          have first := List.head?_dropWhile_not (fun c => decide (c ∈ g.trim)) (c :: buffer)
          rw [cons'] at first
          simpa using first
        rw [cons', List.cons_append] at left
        rw [dropWhile_of_head stays left]
      · rw [leading]
    · have same : g.trimLeading s.buffer = s.buffer := by
        rw [leading, cons, List.dropWhile_cons_of_neg (by simpa using trims)]
      rw [if_neg (by simp [same])]
      refine untouched ?_
      rw [leading]
      exact dropWhile_of_head trims whole

theorem bufRound_kept (lawful : g.Lawful) {value : List Char} {converted : Json}
    (mode : s.mode = .pbuf) (started : s.argsStarted = true) (free : FreeOf [g.paramClose] value)
    (converts : g.convertValue env.py s.key (g.trimTrailing (g.trimLeading value)) s.paramConfig =
      some converted)
    (wf : tail.Wf g env s.paramConfig) (known : 0 ≤ s.ledger.currentToolId)
    (whole : s.buffer ++ future = value ++ (g.paramClose ++ tail.text g)) :
    ∃ turn, s.bufRound g env = some turn ∧
      Kept g env s called turn future tail.block.normal
        ((s.lead ++ quote s.key ++ [':'] ++ converted.dumps).map (.arg s.ledger.currentToolId) ++
          tail.events g env s.paramConfig true s.ledger.currentToolId)
        (tail.block.blocks.length + 1) := by
  have mem : g.paramClose ∈ [g.paramClose] := List.mem_singleton_self _
  have long := List.length_pos_iff.mpr (lawful.param.ne_nil mem)
  unfold InvokeParamStream.bufRound
  cases found : findSub g.paramClose s.buffer with
  | none =>
    exact ⟨_, rfl, kept_stop (.pbuf value converted tail mode started free converts wf known) whole
      fun arrived => absurd arrived (ne_nil_of_unseen whole found)⟩
  | some pos =>
    obtain ⟨rfl, taken, left⟩ := lawful.param.found_ahead mem free whole found
    have room := findSub_room (lawful.param.ne_nil mem) found
    simp only [taken, converts, Option.map_some]
    have known' : 0 ≤ (s.ledger.emit (s.lead ++ quote s.key ++ [':'] ++
        converted.dumps)).1.updatePrev.currentToolId := by
      simpa using known
    refine ⟨_, rfl, kept_on left (.invoke tail rfl wf known') rfl ?_ rfl (by simp) ?_⟩
    · rw [CallLedger.callEvents_emit]
      simp [started]
    · simp only [List.length_drop]
      omega

theorem round_kept (lawful : g.Lawful) {left normal : List Char} {calls : List CallEvent}
    {blocks : Nat} (plan : Plan g env s left normal calls blocks)
    (whole : s.buffer ++ future = left) (nonempty : s.buffer ≠ []) :
    ∃ turn, s.round g env called = some turn ∧
      Kept g env s called turn future normal calls blocks := by
  unfold InvokeParamStream.round
  cases plan with
  | idle text blocks mode free wf known =>
    rw [mode]
    exact ⟨_, rfl, idleRound_kept lawful mode free wf known whole nonempty⟩
  | block tail mode wf known =>
    rw [mode]
    exact ⟨_, rfl, blockRound_kept lawful mode wf known whole⟩
  | invoke tail mode wf known =>
    rw [mode]
    exact ⟨_, rfl, invokeRound_kept lawful mode wf known whole⟩
  | pstr value tail mode started free wf known =>
    rw [mode]
    exact ⟨_, rfl, strRound_kept lawful mode started free wf known whole nonempty⟩
  | pbuf value converted tail mode started free converts wf known =>
    rw [mode]
    exact bufRound_kept lawful mode started free converts wf known whole

/-! ## A step, and a stream -/

/-- Nothing is left when everything has arrived and the buffer is empty. -/
theorem Plan.blocks_eq_zero {normal : List Char} {blocks : Nat}
    (lawful : g.Lawful) (plan : Plan g env s [] normal calls blocks) : blocks = 0 := by
  generalize whole : ([] : List Char) = left at plan
  have outer := lawful.outer.ne_nil (List.mem_singleton_self _)
  have close : g.outerClose ≠ [] := lawful.block.ne_nil (by simp)
  have invoke : g.invokeClose ≠ [] := lawful.invoke.ne_nil (by simp)
  have param := lawful.param.ne_nil (List.mem_singleton_self _)
  cases plan with
  | idle text blocks mode free wf known =>
    cases blocks with
    | nil => rfl
    | cons b blocks => exact absurd whole.symm (by simp [blocksText, outer])
  | block tail mode wf known =>
    have absurd_ := whole.symm
    cases same : tail.invokes with
    | nil => exact absurd absurd_ (by simp [BlockTail.text, same, invokesText, close])
    | cons i rest =>
      have tag : i.tag ≠ [] := by
        intro empty
        have opens := (wf.invokes i (same ▸ List.mem_cons_self)).opens
        rw [empty] at opens
        exact lawful.block.ne_nil (by simp) (List.prefix_nil.mp opens)
      exact absurd absurd_ (by simp [BlockTail.text, same, invokesText, tag])
  | invoke tail mode wf known =>
    have absurd_ := whole.symm
    cases same : tail.params with
    | nil => exact absurd absurd_ (by simp [InvokeTail.text, same, paramsText, invoke])
    | cons p rest => exact absurd absurd_ (by simp [InvokeTail.text, same, paramsText, param])
  | pstr value tail mode started free wf known => exact absurd whole.symm (by simp [param])
  | pbuf value converted tail mode started free converts wf known =>
    exact absurd whole.symm (by simp [param])

/-- The stream takes turns at its buffer. -/
def psMachine (g : InvokeParamGrammar) (env : ToolSetup) : StreamMachine InvokeParamStream :=
  { buffer := fun s => s.buffer
    receive := fun s newText => { s with buffer := s.buffer ++ newText }
    round := fun s called =>
      (s.round g env called).map fun turn => ⟨turn.next, turn.out, turn.again⟩
    turns := fun s => s.buffer.length }

theorem psPlanned (lawful : g.Lawful) :
    (psMachine g env).Planned (fun s => s.mode = .idle) (Plan g env) where
  buffer s newText := rfl
  receive s newText left normal calls blocks plan := by
    cases plan with
    | idle text blocks mode free wf known => exact .idle text blocks mode free wf known
    | block tail mode wf known => exact .block tail mode wf known
    | invoke tail mode wf known =>
      exact @Plan.invoke g env { s with buffer := s.buffer ++ newText } tail mode wf known
    | pstr value tail mode started free wf known =>
      exact @Plan.pstr g env { s with buffer := s.buffer ++ newText } value tail mode started free wf
        known
    | pbuf value converted tail mode started free converts wf known =>
      exact @Plan.pbuf g env { s with buffer := s.buffer ++ newText } value converted tail mode
        started free converts wf known
  round s called future left normal calls blocks plan whole nonempty := by
    obtain ⟨turn, found, left', normal', calls', blocks', kept⟩ :=
      @round_kept g env s future called lawful left normal calls blocks plan whole nonempty
    exact ⟨_, congrArg (Option.map _) found, left', normal', calls', blocks',
      { whole := kept.whole, plan := kept.plan, normal := kept.normal, calls := kept.calls
        fewer := kept.fewer, shorter := kept.shorter, stops := kept.stops, ends := kept.ends }⟩
  arrived s normal calls blocks plan := plan.blocks_eq_zero lawful

/-- The bound on the turns is enough: a turn after which the loop goes on shortens the buffer. -/
theorem loop_eq (lawful : g.Lawful) (turns : Nat) (s : InvokeParamStream)
    (out : StreamingParseResult) {normal : List Char} {blocks : Nat}
    (plan : Plan g env s (s.buffer ++ future) normal calls blocks) (enough : s.buffer.length ≤ turns) :
    s.loop g env turns out = (psMachine g env).loop (turns + 1) s out := by
  induction turns generalizing s out normal calls blocks with
  | zero =>
    have empty : s.buffer = [] := List.length_eq_zero_iff.mp (by omega)
    exact (if_pos empty).symm
  | succ turns ih =>
    rw [InvokeParamStream.loop, StreamMachine.loop]
    by_cases empty : s.buffer = []
    · exact (if_pos empty).trans (if_pos empty).symm
    obtain ⟨turn, found, left', normal', calls', blocks', kept⟩ :=
      @round_kept g env s future (!out.calls.isEmpty) lawful _ normal calls blocks plan rfl empty
    have found' : (psMachine g env).round s (!out.calls.isEmpty) = some ⟨turn.next, turn.out, turn.again⟩ :=
      congrArg (Option.map _) found
    rw [if_neg empty, if_neg (show (psMachine g env).buffer s ≠ [] from empty), found, found']
    have shorter := kept.shorter
    have plan' := kept.plan
    rw [← kept.whole] at plan'
    dsimp only
    split_ifs with again
    · exact ih turn.next _ plan' (by have := shorter again; omega)
    · rfl

theorem feed_eq (lawful : g.Lawful) (pieces : List (List Char)) (s : InvokeParamStream)
    {normal : List Char} {blocks : Nat}
    (plan : Plan g env s (s.buffer ++ pieces.flatten) normal calls blocks) :
    s.feed g env pieces = (psMachine g env).feed s pieces := by
  induction pieces generalizing s normal calls blocks with
  | nil => rfl
  | cons piece pieces ih =>
    have received := (psPlanned lawful).receive s piece _ _ _ _ plan
    obtain ⟨s', out, normal', calls', blocks', ran, step⟩ :=
      StreamMachine.parseStreamingIncrement_kept (psPlanned lawful) s plan
    have same : s.parseStreamingIncrement g env piece = _ :=
      loop_eq lawful _ _ .empty ((List.append_assoc _ _ _).symm ▸ received) le_rfl
    rw [InvokeParamStream.feed, StreamMachine.feed, same.trans ran, ran]
    exact congrArg (fun fed => Option.bind fed _) (ih s' step.plan)

/-- A stream of ordinary text and complete blocks, however it is cut, sends every call whole and every
character of the ordinary text but what the buffer holds, when as many empty steps follow as there are
blocks. -/
theorem feed_complete (lawful : g.Lawful) {before : List Char} {blocks : List PsBlock}
    (free : FreeOf [g.outerOpen] before) (wf : ∀ b ∈ blocks, b.Wf g env)
    (pieces : List (List Char)) (whole : pieces.flatten = before ++ blocksText g blocks)
    {steps : Nat} (enough : blocks.length ≤ steps) :
    ∃ s' out, InvokeParamStream.start.feed g env (pieces ++ List.replicate steps []) =
        some (s', out) ∧ s'.mode = .idle ∧
      callEvents out.calls = wholeCalls 0 (sentCalls g env blocks) ∧
      out.normalText ++ s'.buffer = before ++ ordinaryText blocks := by
  have plan : Plan g env .start (InvokeParamStream.start.buffer ++ pieces.flatten)
      (before ++ ordinaryText blocks) (wholeCalls 0 (sentCalls g env blocks)) blocks.length := by
    rw [whole]
    exact .idle before blocks rfl free wf (by decide)
  obtain ⟨s', out, normal', calls', blocks', fed, (plan' : Plan g env s' s'.buffer _ _ _), normal, calls,
      bound⟩ := StreamMachine.feed_kept (psPlanned lawful) pieces steps .start plan
  rw [← feed_eq lawful _ .start (by simpa using plan)] at fed
  obtain rfl : blocks' = 0 := by omega
  generalize left_ : s'.buffer = left at plan'
  generalize none_ : 0 = count at plan'
  cases plan' with
  | idle text blocks mode free wf known =>
    obtain rfl : blocks = [] := List.length_eq_zero_iff.mp none_.symm
    refine ⟨s', out, fed, mode, ?_, ?_⟩
    · rw [calls]
      simp [sentCalls, wholeCalls]
    · rw [normal, left_]
      simp [blocksText, ordinaryText]
  | _ => exact absurd none_ (by omega)

end

end FreeSwarm.Server
