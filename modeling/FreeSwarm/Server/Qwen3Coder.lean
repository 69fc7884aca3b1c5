import FreeSwarm.Server.InvokeParamRun

/-!
# Qwen3-Coder

The XML-style tool calls of Qwen3-Coder. One-shot parsing looks for blocks, then for functions in a
block, then for parameters in a function, each up to the first tag that ends it or something around
it. A stream looks for the tag that ends the part it is in. The two agree on complete blocks in which
no name, key or value quotes a tag of an outer level, when no text value reads `null`.
-/

namespace FreeSwarm.Server

open FreeSwarm.Foundation

/-! ## The detector -/

namespace Qwen3CoderDetector

def toolCallOpen : List Char := "<tool_call>".toList

def toolCallClose : List Char := "</tool_call>".toList

def functionOpen : List Char := "<function=".toList

def functionClose : List Char := "</function>".toList

def parameterOpen : List Char := "<parameter=".toList

def parameterClose : List Char := "</parameter>".toList

/-- The markers of the format. -/
def grammar : InvokeParamGrammar :=
  { outerOpen := toolCallOpen
    outerClose := toolCallClose
    invokeOpenPrefix := functionOpen
    invokeOpenRe := bracketTag functionOpen
    invokeClose := functionClose
    paramOpenPrefix := parameterOpen
    paramOpenRe := bracketTag parameterOpen
    paramClose := parameterClose
    trim := ['\n']
    trimSingle := true
    missingType := "string".toList
    canonicalName := id }

theorem grammar_lawful : grammar.Lawful where
  outer := ⟨by decide, by decide, by decide⟩
  block := ⟨by decide, by decide, by decide⟩
  invoke := ⟨by decide, by decide, by decide⟩
  param := ⟨by decide, by decide, by decide⟩
  blockApart := by decide
  invokeApart := by decide
  solid := by decide

variable (env : ToolSetup) (text : List Char)

/-- The first function in a block: up to its closing tag, or to the end of the block. -/
def nextFunction : Option (List Char × List Char) :=
  match splitSub functionOpen text with
  | none => none
  | some (_, body) =>
    match splitSub functionClose body with
    | some found => some found
    | none => some (body, [])

def parameterEnds : List (List Char) :=
  [parameterClose, parameterOpen, functionClose]

/-- The first parameter in a function: up to its closing tag, to the next tag that cannot be in it, or
to the end, before a last line break. -/
def nextParameter : Option (List Char × List Char) :=
  match splitSub parameterOpen text with
  | none => none
  | some (_, body) =>
    match earliest parameterEnds body with
    | some (pos, tok) =>
      some (body.take pos, body.drop (pos + if tok = parameterClose then tok.length else 0))
    | none =>
      if body.getLast? = some '\n' then some (body.dropLast, ['\n']) else some (body, [])

/-- A value without a line break before it. -/
def dropNewline : List Char → List Char
  | '\n' :: rest => rest
  | value => value

/-- A value without one line break before it and one behind it. -/
def trimNewlines (value : List Char) : List Char :=
  let value := dropNewline value
  if value.getLast? = some '\n' then value.dropLast else value

/-- The name and the value of a parameter; nothing when the tag has no end, and a failure when the
conversion fails. -/
def parseParameter (paramConfig : ParamConfig) (found : List Char) :
    Option (Option (List Char × Json)) :=
  match splitSub ['>'] found with
  | none => some none
  | some (rawName, value) =>
    let paramName := strip rawName
    (convertParamValue env.py (trimNewlines value) paramName paramConfig).map fun v =>
      some (paramName, v)

def parseFunctionCall (functionStr : List Char) : Option (Option ToolCallItem) :=
  match splitSub ['>'] functionStr with
  | none => some none
  | some (rawName, parametersText) =>
    let funcName := strip rawName
    if env.accepts funcName then
      let paramConfig := env.paramConfig funcName
      ((findAll nextParameter parametersText).mapM (parseParameter env paramConfig)).map
        fun params => some
          { toolIndex := (((env.toolIndices.lookup funcName).getD 0 : Nat) : Int)
            name := some funcName
            parameters := (Json.obj (dictOf (params.filterMap id))).dumps }
    else some none

/-- One-shot parsing, which fails when a conversion does. -/
def detectAndParse : Option StreamingParseResult :=
  let normalText :=
    match findSub toolCallOpen text with
    | some idx => strip (text.take idx)
    | none => text
  if functionOpen <:+: text then
    let found := findAll (between toolCallOpen toolCallClose) text
    let toolCallBlocks := if found = [] then [text] else found
    let functions := toolCallBlocks.flatMap (findAll nextFunction)
    (functions.mapM (parseFunctionCall env)).map fun items =>
      ⟨normalText, numbered (items.filterMap id)⟩
  else some ⟨normalText, []⟩

/-! ## Complete blocks at once -/

/-- A parameter that quotes no tag of an outer level, and no text that reads `null`. -/
structure PlainParam (paramConfig : ParamConfig) (p : PsParam) : Prop where
  quotes : FreeOf parameterEnds (p.rawName ++ '>' :: p.value)
  /-- A value that is streamed as text does not read `null`. -/
  known : p.Streamed grammar env paramConfig →
    lower (p.trimmed grammar) ≠ "null".toList

structure PlainInvoke (i : PsInvoke) : Prop where
  quotes : FreeOf [functionClose]
    (i.rawName ++ '>' :: (i.gap ++ paramsText grammar i.params []))
  params : ∀ p ∈ i.params,
    PlainParam env (env.paramConfig (i.name grammar)) p

structure PlainBlock (b : PsBlock) : Prop where
  quotes : FreeOf [toolCallClose] (b.gap ++ invokesText grammar b.invokes [])
  invokes : ∀ i ∈ b.invokes, PlainInvoke env i

section
variable {env : ToolSetup} {paramConfig : ParamConfig}

theorem param_tag {p : PsParam} (wf : p.Wf grammar env paramConfig) :
    p.tag = parameterOpen ++ (p.rawName ++ ['>']) ∧ '>' ∉ p.rawName :=
  (isTag_bracketTag_iff (by decide) (by decide)).mp ⟨wf.tag, wf.opens⟩

theorem invoke_tag {i : PsInvoke} (wf : i.Wf grammar env) :
    i.tag = functionOpen ++ (i.rawName ++ ['>']) ∧ '>' ∉ i.rawName :=
  (isTag_bracketTag_iff (by decide) (by decide)).mp ⟨wf.tag, wf.opens⟩

theorem headed_parameterEnds : Headed '<' parameterEnds := ⟨by decide, by decide, by decide⟩

theorem nextParameter_consumes : Consumes nextParameter := by
  intro text body rest found
  rw [nextParameter] at found
  cases split : splitSub parameterOpen text with
  | none => simp [split] at found
  | some parts =>
    obtain ⟨before, inside⟩ := parts
    have whole := splitSub_length split
    simp only [split] at found
    have long : 1 < parameterOpen.length := by decide
    cases first : earliest parameterEnds inside with
    | some result =>
      obtain ⟨pos, tok⟩ := result
      simp only [first, Option.some.injEq, Prod.mk.injEq] at found
      rw [← found.2, List.length_drop]
      omega
    | none =>
      simp only [first] at found
      split_ifs at found with last
      · obtain ⟨-, rfl⟩ := Prod.mk.inj (Option.some.inj found)
        rw [List.length_singleton]
        omega
      · obtain ⟨-, rfl⟩ := Prod.mk.inj (Option.some.inj found)
        rw [List.length_nil]
        omega

theorem nextFunction_consumes : Consumes nextFunction := by
  intro text body rest found
  rw [nextFunction] at found
  cases split : splitSub functionOpen text with
  | none => simp [split] at found
  | some parts =>
    obtain ⟨before, inside⟩ := parts
    have whole := splitSub_length split
    simp only [split] at found
    have long : 0 < functionOpen.length := by decide
    cases close : splitSub functionClose inside with
    | some result =>
      obtain ⟨left, right⟩ := result
      have whole' := splitSub_length close
      simp only [close, Option.some.injEq, Prod.mk.injEq] at found
      rw [← found.2]
      omega
    | none =>
      simp only [close, Option.some.injEq, Prod.mk.injEq] at found
      rw [← found.2, List.length_nil]
      omega

theorem findAll_parameters {gap : List Char} {params : List PsParam}
    (free : FreeOf [parameterOpen] gap)
    (wf : ∀ p ∈ params, p.Wf grammar env paramConfig)
    (plain : ∀ p ∈ params, PlainParam env paramConfig p) :
    findAll nextParameter (gap ++ paramsText grammar params []) =
      params.map fun p => p.rawName ++ '>' :: p.value := by
  have headed : Headed '<' [parameterOpen] := ⟨by decide, by decide, by decide⟩
  induction params generalizing gap with
  | nil =>
    refine findAll_none ?_
    have none_ : splitSub parameterOpen (gap ++ []) = none :=
      splitSub_eq_none (by rw [List.append_nil]; exact free _ (by simp))
    rw [nextParameter, paramsText, List.foldr_nil, none_]
  | cons p params ih =>
    obtain ⟨here, later⟩ := List.forall_mem_cons.mp wf
    obtain ⟨here', later'⟩ := List.forall_mem_cons.mp plain
    have text : gap ++ paramsText grammar (p :: params) [] =
        gap ++ (parameterOpen ++ ((p.rawName ++ '>' :: p.value) ++ (parameterClose ++
          (p.gap ++ paramsText grammar params [])))) := by
      simp only [paramsText, List.foldr_cons, (param_tag here).1, List.append_assoc,
        List.cons_append, List.nil_append]
      rfl
    have split := headed.splitSub_ahead (List.mem_singleton_self _) free ((p.rawName ++ '>' :: p.value) ++
      (parameterClose ++ (p.gap ++ paramsText grammar params [])))
    have first := @Headed.earliest_ahead _ _ _ _ _ parameterClose headed_parameterEnds (by decide)
      here'.quotes (p.gap ++ paramsText grammar params [])
    have next : nextParameter (gap ++ paramsText grammar (p :: params) []) =
        some (p.rawName ++ '>' :: p.value, p.gap ++ paramsText grammar params []) := by
      rw [nextParameter, text, split]
      simp only [first, if_true, List.take_left]
      rw [← List.length_append, ← List.append_assoc, List.drop_left]
    rw [findAll_some nextParameter_consumes next, List.map_cons]
    refine congrArg (_ :: ·) (ih ?_ later later')
    exact fun tok mem => here.gap tok (by
      obtain rfl := List.mem_singleton.mp mem
      simp [grammar])

theorem findAll_functions {gap : List Char} {invokes : List PsInvoke}
    (free : FreeOf [functionOpen] gap) (wf : ∀ i ∈ invokes, i.Wf grammar env)
    (plain : ∀ i ∈ invokes, PlainInvoke env i) :
    findAll nextFunction (gap ++ invokesText grammar invokes []) =
      invokes.map fun i => i.rawName ++ '>' :: (i.gap ++ paramsText grammar i.params []) := by
  have headed : Headed '<' [functionOpen] := ⟨by decide, by decide, by decide⟩
  have headed' : Headed '<' [functionClose] := ⟨by decide, by decide, by decide⟩
  induction invokes generalizing gap with
  | nil =>
    refine findAll_none ?_
    have none_ : splitSub functionOpen (gap ++ []) = none :=
      splitSub_eq_none (by rw [List.append_nil]; exact free _ (by simp))
    rw [nextFunction, invokesText, List.foldr_nil, none_]
  | cons i invokes ih =>
    obtain ⟨here, later⟩ := List.forall_mem_cons.mp wf
    obtain ⟨here', later'⟩ := List.forall_mem_cons.mp plain
    have text : gap ++ invokesText grammar (i :: invokes) [] =
        gap ++ (functionOpen ++ ((i.rawName ++ '>' :: (i.gap ++ paramsText grammar i.params [])) ++
          (functionClose ++ (i.after ++ invokesText grammar invokes [])))) := by
      have inner := paramsText_append grammar i.params
        (functionClose ++ (i.after ++ invokesText grammar invokes []))
      have outer : invokesText grammar (i :: invokes) [] =
          i.tag ++ (i.gap ++ paramsText grammar i.params
            (functionClose ++ (i.after ++ invokesText grammar invokes []))) := rfl
      rw [outer, inner, (invoke_tag here).1]
      simp only [List.append_assoc, List.cons_append, List.nil_append]
    have split := headed.splitSub_ahead (List.mem_singleton_self _) free
      ((i.rawName ++ '>' :: (i.gap ++ paramsText grammar i.params [])) ++
        (functionClose ++ (i.after ++ invokesText grammar invokes [])))
    have close := headed'.splitSub_ahead (List.mem_singleton_self _) here'.quotes
      (i.after ++ invokesText grammar invokes [])
    have next : nextFunction (gap ++ invokesText grammar (i :: invokes) []) =
        some (i.rawName ++ '>' :: (i.gap ++ paramsText grammar i.params []),
          i.after ++ invokesText grammar invokes []) := by
      rw [nextFunction, text, split]
      simp only [close]
    rw [findAll_some nextFunction_consumes next, List.map_cons]
    refine congrArg (_ :: ·) (ih ?_ later later')
    exact fun tok mem => here.after tok (by
      obtain rfl := List.mem_singleton.mp mem
      exact List.mem_cons_self)

variable {blocks : List PsBlock}

theorem findAll_blocks {before : List Char}
    (free : FreeOf [toolCallOpen] before) (wf : ∀ b ∈ blocks, b.Wf grammar env)
    (plain : ∀ b ∈ blocks, PlainBlock env b) :
    findAll (between toolCallOpen toolCallClose) (before ++ blocksText grammar blocks) =
      blocks.map fun b => b.gap ++ invokesText grammar b.invokes [] := by
  have headed : Headed '<' [toolCallOpen] := ⟨by decide, by decide, by decide⟩
  have headed' : Headed '<' [toolCallClose] := ⟨by decide, by decide, by decide⟩
  induction blocks generalizing before with
  | nil =>
    refine findAll_none ?_
    have none_ : splitSub toolCallOpen (before ++ []) = none :=
      splitSub_eq_none (by rw [List.append_nil]; exact free _ (by simp))
    rw [between, blocksText, List.foldr_nil, none_]
  | cons b blocks ih =>
    obtain ⟨here, later⟩ := List.forall_mem_cons.mp wf
    obtain ⟨here', later'⟩ := List.forall_mem_cons.mp plain
    have text : before ++ blocksText grammar (b :: blocks) =
        before ++ (toolCallOpen ++ ((b.gap ++ invokesText grammar b.invokes []) ++
          (toolCallClose ++ (b.after ++ blocksText grammar blocks)))) := by
      have inner := invokesText_append grammar b.invokes
        (toolCallClose ++ (b.after ++ blocksText grammar blocks))
      have outer : blocksText grammar (b :: blocks) =
          toolCallOpen ++ (b.gap ++ invokesText grammar b.invokes
            (toolCallClose ++ (b.after ++ blocksText grammar blocks))) := rfl
      rw [outer, inner]
      simp only [List.append_assoc]
    have next : between toolCallOpen toolCallClose (before ++ blocksText grammar (b :: blocks)) =
        some (b.gap ++ invokesText grammar b.invokes [], b.after ++ blocksText grammar blocks) := by
      rw [between, text, headed.splitSub_ahead (List.mem_singleton_self _) free]
      exact headed'.splitSub_ahead (List.mem_singleton_self _) here'.quotes _
    rw [findAll_some (between_consumes (by decide) _) next, List.map_cons]
    exact congrArg (_ :: ·) (ih here.after later later')

theorem trimNewlines_eq (value : List Char) :
    trimNewlines value = grammar.trimTrailing (grammar.trimLeading value) := by
  have leading : dropNewline value = grammar.trimLeading value := by
    unfold InvokeParamGrammar.trimLeading dropNewline
    cases value with
    | nil => rfl
    | cons c rest =>
      by_cases newline : c = '\n'
      · subst newline
        rfl
      · have other : c ∉ grammar.trim := by simpa [grammar] using newline
        simp only [if_neg other]
        split
        · next same => exact absurd (List.cons.inj same).1 newline
        · simp [grammar]
  rw [trimNewlines, leading]
  unfold InvokeParamGrammar.trimTrailing
  cases last : (grammar.trimLeading value).getLast? with
  | none =>
    rw [List.getLast?_eq_none_iff.mp last]
    rfl
  | some c =>
    simp [grammar]

theorem parseParameter_eq {p : PsParam} (wf : p.Wf grammar env paramConfig)
    (plain : PlainParam env paramConfig p) :
    parseParameter env paramConfig (p.rawName ++ '>' :: p.value) =
      some (some (p.member grammar env paramConfig)) := by
  have converts : convertParamValue env.py (p.trimmed grammar) p.key paramConfig =
      p.sentValue grammar env paramConfig := by
    rw [PsParam.sentValue]
    split_ifs with streamed
    · exact convertParamValue_string (plain.known streamed) streamed
    · rw [InvokeParamGrammar.convertValue, if_pos (.inr (by decide))]
  obtain ⟨v, sent⟩ := Option.isSome_iff_exists.mp wf.converts
  rw [parseParameter, splitSub_char (param_tag wf).2]
  simp only [trimNewlines_eq]
  change (convertParamValue env.py (p.trimmed grammar) p.key paramConfig).map _ = _
  rw [converts, PsParam.member, sent]
  rfl

theorem parseFunctionCall_eq {i : PsInvoke} (wf : i.Wf grammar env) (plain : PlainInvoke env i) :
    parseFunctionCall env (i.rawName ++ '>' :: (i.gap ++ paramsText grammar i.params [])) =
      some (some (i.item grammar env (((env.toolIndices.lookup (i.name grammar)).getD 0 : Nat) : Int))) := by
  have known : env.accepts (strip i.rawName) = true := wf.known
  have free : FreeOf [parameterOpen] i.gap := fun tok mem => wf.gap tok (by
    obtain rfl := List.mem_singleton.mp mem
    exact List.mem_cons_self)
  rw [parseFunctionCall, splitSub_char (invoke_tag wf).2]
  simp only [known, if_true]
  rw [findAll_parameters free wf.params plain.params, List.mapM_map]
  have each : ∀ p ∈ i.params, parseParameter env (env.paramConfig (strip i.rawName))
      (p.rawName ++ '>' :: p.value) =
        some (some (p.member grammar env (env.paramConfig (i.name grammar)))) :=
    fun p mem => parseParameter_eq (wf.params p mem) (plain.params p mem)
  have collect (members : List (List Char × Json)) :
      (members.map some).filterMap id = members := by
    simp
  have all := mapM_eq_some each
  rw [← Function.comp_def some, ← List.map_map] at all
  rw [Function.comp_def, all, Option.map_some, collect]
  rfl

theorem functionOpen_mark (wf : ∀ b ∈ blocks, b.Wf grammar env)
    {i : PsInvoke} (mem : i ∈ blocks.flatMap PsBlock.invokes) (before : List Char) :
    functionOpen <:+: before ++ blocksText grammar blocks := by
  have inInvokes : ∀ (invokes : List PsInvoke) (rest : List Char), i ∈ invokes →
      i.tag <:+: invokesText grammar invokes rest := by
    intro invokes rest mem
    induction invokes with
    | nil => exact absurd mem List.not_mem_nil
    | cons i' invokes ih =>
      have whole : invokesText grammar (i' :: invokes) rest = i'.tag ++ (i'.gap ++
          (paramsText grammar i'.params [] ++ (functionClose ++ (i'.after ++
            invokesText grammar invokes rest)))) := by
        rw [← paramsText_append]
        rfl
      rw [whole]
      rcases List.mem_cons.mp mem with rfl | mem
      · exact (List.prefix_append _ _).isInfix
      · refine (ih mem).trans (List.IsSuffix.isInfix ?_)
        simp only [← List.append_assoc]
        exact List.suffix_append _ _
  have inBlocks : ∀ blocks : List PsBlock, i ∈ blocks.flatMap PsBlock.invokes →
      i.tag <:+: blocksText grammar blocks := by
    intro blocks mem
    induction blocks with
    | nil => exact absurd mem (by simp)
    | cons b blocks ih =>
      have whole : blocksText grammar (b :: blocks) = toolCallOpen ++ (b.gap ++
          (invokesText grammar b.invokes [] ++ (toolCallClose ++ (b.after ++
            blocksText grammar blocks)))) := by
        rw [← invokesText_append]
        rfl
      rw [List.flatMap_cons, List.mem_append] at mem
      rw [whole]
      rcases mem with mem | mem
      · refine (inInvokes _ [] mem).trans ?_
        refine ⟨toolCallOpen ++ b.gap, toolCallClose ++ (b.after ++ blocksText grammar blocks), ?_⟩
        simp only [List.append_assoc]
      · refine (ih mem).trans (List.IsSuffix.isInfix ?_)
        simp only [← List.append_assoc]
        exact List.suffix_append _ _
  obtain ⟨b, hb, hi⟩ := List.mem_flatMap.mp mem
  exact ((wf b hb).invokes i hi).opens.isInfix.trans
    ((inBlocks blocks mem).trans (List.suffix_append _ _).isInfix)

theorem detectAndParse_calls {before : List Char}
    (free : FreeOf [toolCallOpen, functionOpen] before) (wf : ∀ b ∈ blocks, b.Wf grammar env)
    (plain : ∀ b ∈ blocks, PlainBlock env b) :
    ∃ shot, detectAndParse env (before ++ blocksText grammar blocks) = some shot ∧
      SameCalls (sentCalls grammar env blocks) shot.calls := by
  have sent : sentCalls grammar env blocks =
      (blocks.flatMap PsBlock.invokes).map (PsInvoke.call grammar env) := by
    rw [sentCalls, List.map_flatMap]
  have free' : FreeOf [toolCallOpen] before := fun tok mem => free tok (by
    obtain rfl := List.mem_singleton.mp mem
    exact List.mem_cons_self)
  unfold detectAndParse
  simp only
  by_cases opens : functionOpen <:+: before ++ blocksText grammar blocks
  · rw [if_pos opens]
    have found := findAll_blocks free' wf plain
    have some_ : blocks ≠ [] := by
      rintro rfl
      rw [blocksText, List.foldr_nil, List.append_nil] at opens
      exact free _ (by simp) opens
    have functions : (blocks.map fun b => b.gap ++ invokesText grammar b.invokes []).flatMap
        (findAll nextFunction) = (blocks.flatMap PsBlock.invokes).map fun i =>
          i.rawName ++ '>' :: (i.gap ++ paramsText grammar i.params []) := by
      rw [List.flatMap_map, List.map_flatMap]
      refine List.flatMap_congr fun b mem => ?_
      refine findAll_functions (fun tok mem' => (wf b mem).gap tok ?_) (wf b mem).invokes
        (plain b mem).invokes
      obtain rfl := List.mem_singleton.mp mem'
      exact List.mem_cons_self
    have each : ∀ i ∈ blocks.flatMap PsBlock.invokes, parseFunctionCall env
        (i.rawName ++ '>' :: (i.gap ++ paramsText grammar i.params [])) =
          some (some (i.item grammar env
            (((env.toolIndices.lookup (i.name grammar)).getD 0 : Nat) : Int))) := by
      intro i mem
      obtain ⟨b, hb, hi⟩ := List.mem_flatMap.mp mem
      exact parseFunctionCall_eq ((wf b hb).invokes i hi) ((plain b hb).invokes i hi)
    have all := mapM_eq_some each
    rw [← Function.comp_def some, ← List.map_map] at all
    have collect (items : List ToolCallItem) : (items.map some).filterMap id = items := by
      simp
    rw [found, if_neg (by simpa using some_), functions, List.mapM_map, Function.comp_def, all]
    refine ⟨_, rfl, ?_⟩
    simp only [collect, sent]
    exact sameCalls_numbered (sameCalls_item grammar env _ _)
  · rw [if_neg opens]
    refine ⟨_, rfl, ?_⟩
    have none_ : blocks.flatMap PsBlock.invokes = [] := by
      rw [List.eq_nil_iff_forall_not_mem]
      exact fun i mem => opens (functionOpen_mark wf mem before)
    rw [sent, none_]
    exact .nil

end

end Qwen3CoderDetector

end FreeSwarm.Server
