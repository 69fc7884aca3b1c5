import FreeSwarm.Server.InvokeParamRun

/-!
# MiniMax M2

The XML tool-call blocks of MiniMax M2. One-shot parsing looks for invocations in the whole text, each
up to the first tag that closes one, and for complete parameters in an invocation. It agrees with a
stream on complete blocks in which no name, key or value quotes the tag that closes an invocation,
when no text value reads `null` and the text outside blocks has no tag of an invocation.
-/

namespace FreeSwarm.Server

open FreeSwarm.Foundation

namespace MiniMaxDetector

def blockOpen : List Char := "<minimax:tool_call>".toList

def blockClose : List Char := "</minimax:tool_call>".toList

def invokeOpen : List Char := "<invoke".toList

def invokeClose : List Char := "</invoke>".toList

def parameterOpen : List Char := "<parameter".toList

def parameterClose : List Char := "</parameter>".toList

/-- The markers of the format. -/
def grammar : InvokeParamGrammar :=
  { outerOpen := blockOpen
    outerClose := blockClose
    invokeOpenPrefix := invokeOpen
    invokeOpenRe := nameTag invokeOpen
    invokeClose := invokeClose
    paramOpenPrefix := parameterOpen
    paramOpenRe := nameTag parameterOpen
    paramClose := parameterClose
    trim := ['\n']
    trimSingle := false
    missingType := "loose".toList
    canonicalName := id }

theorem grammar_lawful : grammar.Lawful where
  outer := ⟨by decide, by decide, by decide⟩
  block := ⟨by decide, by decide, by decide⟩
  invoke := ⟨by decide, by decide, by decide⟩
  param := ⟨by decide, by decide, by decide⟩
  blockApart := by decide
  invokeApart := by decide
  solid := by decide

/-- The first invocation of a text: its name and what it encloses. -/
def nextInvoke : List Char → Option ((List Char × List Char) × List Char) :=
  tagged (nameTag invokeOpen) invokeClose

/-- The first parameter of an invocation: its name and its value. -/
def nextParameter : List Char → Option ((List Char × List Char) × List Char) :=
  tagged (nameTag parameterOpen) parameterClose

/-- A value without the line breaks around it. -/
def stripNewlines (value : List Char) : List Char :=
  (value.dropWhile (· = '\n')).rdropWhile (· = '\n')

variable (env : ToolSetup)

def parseParameter (config : ParamConfig) (found : List Char × List Char) :
    Option (List Char × Json) :=
  let key := strip found.1
  let raw := stripNewlines found.2
  (if (config.lookup key).isSome then convertParamValue env.py raw key config
    else parseLooseJsonValue env.py raw).map fun v => (key, v)

def parseInvoke (found : List Char × List Char) : Option (Option ToolCallItem) :=
  let (funcName, invokeBody) := found
  if env.accepts funcName then
    ((findAll nextParameter invokeBody).mapM (parseParameter env (env.paramConfig funcName))).map
      fun args => some
        { toolIndex := 0, name := some funcName, parameters := (Json.obj (dictOf args)).dumps }
  else some none

/-- One-shot parsing, which fails when a conversion does. -/
def detectAndParse (text : List Char) : Option StreamingParseResult :=
  match findSub blockOpen text with
  | none => some ⟨text, []⟩
  | some idx =>
    ((findAll nextInvoke text).mapM (parseInvoke env)).map fun items =>
      ⟨strip (text.take idx), numbered (items.filterMap id)⟩

/-! ## Complete blocks at once -/

/-- An invocation whose name in the tag is the name of the tool, in which nothing quotes the tag that
ends it, and of which no text value reads `null`. -/
structure PlainInvoke (i : PsInvoke) : Prop where
  name : strip i.rawName = i.rawName
  quotes : FreeOf [invokeClose] (i.gap ++ paramsText grammar i.params [])
  /-- A value that is streamed as text does not read `null`. -/
  known : ∀ p ∈ i.params, p.Streamed grammar env (env.paramConfig (i.name grammar)) →
    lower (p.trimmed grammar) ≠ "null".toList

/-- A block of such invocations, with text behind it that has no tag of an invocation. -/
structure PlainBlock (b : PsBlock) : Prop where
  invokes : ∀ i ∈ b.invokes, PlainInvoke env i
  after : FreeOf [invokeOpen] b.after

section
variable {env : ToolSetup} {paramConfig : ParamConfig}

theorem nextInvoke_consumes : Consumes nextInvoke :=
  (tagPattern_nameTag invokeOpen).tagged_consumes (by decide)

theorem nextParameter_consumes : Consumes nextParameter :=
  (tagPattern_nameTag parameterOpen).tagged_consumes (by decide)

theorem findAll_parameters {gap : List Char} {params : List PsParam}
    (free : FreeOf [parameterOpen] gap) (wf : ∀ p ∈ params, p.Wf grammar env paramConfig) :
    findAll nextParameter (gap ++ paramsText grammar params []) =
      params.map fun p => (p.rawName, p.value) := by
  have headed : Headed '<' [parameterOpen] := ⟨by decide, by decide, by decide⟩
  have headed' : Headed '<' [parameterClose] := ⟨by decide, by decide, by decide⟩
  induction params generalizing gap with
  | nil =>
    refine findAll_none ((tagPattern_nameTag parameterOpen).tagged_none ?_)
    rw [paramsText, List.foldr_nil, List.append_nil]
    exact free _ (List.mem_singleton_self _)
  | cons p params ih =>
    obtain ⟨here, later⟩ := List.forall_mem_cons.mp wf
    have next : nextParameter (gap ++ paramsText grammar (p :: params) []) =
        some ((p.rawName, p.value), p.gap ++ paramsText grammar params []) :=
      (tagPattern_nameTag parameterOpen).tagged_ahead here.tag here.opens headed
        (List.mem_singleton_self _) free headed' here.value _
    rw [findAll_some nextParameter_consumes next, List.map_cons]
    refine congrArg (_ :: ·) (ih ?_ later)
    exact fun tok mem => here.gap tok (by
      obtain rfl := List.mem_singleton.mp mem
      exact List.mem_cons_self)

theorem headed_block : Headed '<' [invokeOpen, blockClose] := ⟨by decide, by decide, by decide⟩

/-- The invocations of a block are found one after the other; what is left starts with text without
tags. -/
theorem findAll_invokes {front : List Char} {invokes : List PsInvoke} (rest : List Char)
    (free : FreeOf [invokeOpen, blockClose] front) (wf : ∀ i ∈ invokes, i.Wf grammar env)
    (plain : ∀ i ∈ invokes, PlainInvoke env i) :
    ∃ front', FreeOf [invokeOpen, blockClose] front' ∧
      findAll nextInvoke (front ++ invokesText grammar invokes rest) =
        (invokes.map fun i => (i.rawName, i.gap ++ paramsText grammar i.params [])) ++
          findAll nextInvoke (front' ++ rest) := by
  have headed : Headed '<' [invokeOpen] := ⟨by decide, by decide, by decide⟩
  have headed' : Headed '<' [invokeClose] := ⟨by decide, by decide, by decide⟩
  induction invokes generalizing front with
  | nil => exact ⟨front, free, rfl⟩
  | cons i invokes ih =>
    obtain ⟨here, later⟩ := List.forall_mem_cons.mp wf
    obtain ⟨here', later'⟩ := List.forall_mem_cons.mp plain
    obtain ⟨front', free', found⟩ := ih here.after later later'
    have text : front ++ invokesText grammar (i :: invokes) rest =
        front ++ (i.tag ++ ((i.gap ++ paramsText grammar i.params []) ++
          (invokeClose ++ (i.after ++ invokesText grammar invokes rest)))) := by
      have inner := paramsText_append grammar i.params
        (invokeClose ++ (i.after ++ invokesText grammar invokes rest))
      have outer : invokesText grammar (i :: invokes) rest =
          i.tag ++ (i.gap ++ paramsText grammar i.params
            (invokeClose ++ (i.after ++ invokesText grammar invokes rest))) := rfl
      rw [outer, inner]
      simp only [List.append_assoc]
    have next : nextInvoke (front ++ invokesText grammar (i :: invokes) rest) =
        some ((i.rawName, i.gap ++ paramsText grammar i.params []),
          i.after ++ invokesText grammar invokes rest) := by
      rw [text]
      exact (tagPattern_nameTag invokeOpen).tagged_ahead here.tag here.opens headed
        (List.mem_singleton_self _) (fun tok mem => free tok (by
          obtain rfl := List.mem_singleton.mp mem
          exact List.mem_cons_self)) headed' here'.quotes _
    refine ⟨front', free', ?_⟩
    rw [findAll_some nextInvoke_consumes next, found, List.map_cons]
    rfl

theorem findAll_text {before : List Char} {blocks : List PsBlock}
    (free : FreeOf [blockOpen, invokeOpen] before) (wf : ∀ b ∈ blocks, b.Wf grammar env)
    (plain : ∀ b ∈ blocks, PlainBlock env b) :
    findAll nextInvoke (before ++ blocksText grammar blocks) =
      (blocks.flatMap PsBlock.invokes).map fun i =>
        (i.rawName, i.gap ++ paramsText grammar i.params []) := by
  have headed : Headed '<' [blockOpen, invokeOpen] := ⟨by decide, by decide, by decide⟩
  have pattern := tagPattern_nameTag invokeOpen
  induction blocks generalizing before with
  | nil =>
    refine findAll_none (pattern.tagged_none ?_)
    rw [blocksText, List.foldr_nil, List.append_nil]
    exact free _ (by simp)
  | cons b blocks ih =>
    obtain ⟨here, later⟩ := List.forall_mem_cons.mp wf
    obtain ⟨here', later'⟩ := List.forall_mem_cons.mp plain
    have beyond : nextInvoke (before ++ blocksText grammar (b :: blocks)) =
        nextInvoke (b.gap ++ invokesText grammar b.invokes
          (blockClose ++ (b.after ++ blocksText grammar blocks))) :=
      pattern.tagged_over headed (by simp) List.mem_cons_self (by decide) free _
    obtain ⟨front, free', found⟩ := findAll_invokes
      (blockClose ++ (b.after ++ blocksText grammar blocks)) here.gap here.invokes here'.invokes
    have beyond' : nextInvoke (front ++ (blockClose ++ (b.after ++ blocksText grammar blocks))) =
        nextInvoke (b.after ++ blocksText grammar blocks) :=
      pattern.tagged_over headed_block List.mem_cons_self (by simp) (by decide) free' _
    have ordinary : FreeOf [blockOpen, invokeOpen] b.after := by
      intro tok mem
      rcases List.mem_cons.mp mem with rfl | mem
      · exact here.after _ (List.mem_singleton_self _)
      · exact here'.after tok mem
    rw [findAll_congr nextInvoke_consumes beyond, found, findAll_congr nextInvoke_consumes beyond',
      ih ordinary later later', List.flatMap_cons, List.map_append]

theorem parseParameter_eq {p : PsParam} (wf : p.Wf grammar env paramConfig)
    (known : p.Streamed grammar env paramConfig → lower (p.trimmed grammar) ≠ "null".toList) :
    parseParameter env paramConfig (p.rawName, p.value) =
      some (p.member grammar env paramConfig) := by
  have trimmed : stripNewlines p.value = p.trimmed grammar := by
    simp [stripNewlines, PsParam.trimmed, InvokeParamGrammar.trimTrailing,
      InvokeParamGrammar.trimLeading, grammar]
  have converts : (if (paramConfig.lookup p.key).isSome then
        convertParamValue env.py (p.trimmed grammar) p.key paramConfig
      else parseLooseJsonValue env.py (p.trimmed grammar)) = p.sentValue grammar env paramConfig := by
    rw [PsParam.sentValue]
    by_cases streamed : p.Streamed grammar env paramConfig
    · obtain ⟨declared, string⟩ := schemaParamType_loose streamed
      rw [if_pos streamed, if_pos declared]
      exact convertParamValue_string (known streamed) string
    · rw [if_neg streamed, InvokeParamGrammar.convertValue]
      by_cases declared : (paramConfig.lookup p.key).isSome = true
      · rw [if_pos declared, if_pos (.inl declared)]
      · rw [if_neg declared, if_neg]
        rintro (h | h)
        · exact declared h
        · exact h rfl
  obtain ⟨v, sent⟩ := Option.isSome_iff_exists.mp wf.converts
  unfold parseParameter
  simp only [trimmed]
  change (if (paramConfig.lookup p.key).isSome then
    convertParamValue env.py (p.trimmed grammar) p.key paramConfig
      else parseLooseJsonValue env.py (p.trimmed grammar)).map _ = _
  rw [converts, PsParam.member, sent]
  rfl

theorem parseInvoke_eq {i : PsInvoke} (wf : i.Wf grammar env) (plain : PlainInvoke env i) :
    parseInvoke env (i.rawName, i.gap ++ paramsText grammar i.params []) =
      some (some (i.item grammar env 0)) := by
  have name : i.name grammar = i.rawName := plain.name
  have known := wf.known
  have free : FreeOf [parameterOpen] i.gap := fun tok mem => wf.gap tok (by
    obtain rfl := List.mem_singleton.mp mem
    exact List.mem_cons_self)
  have each : ∀ p ∈ i.params, parseParameter env (env.paramConfig (i.name grammar))
      (p.rawName, p.value) = some (p.member grammar env (env.paramConfig (i.name grammar))) :=
    fun p mem => parseParameter_eq (wf.params p mem) (plain.known p mem)
  rw [← name]
  unfold parseInvoke
  simp only [known, if_true]
  rw [findAll_parameters free wf.params, List.mapM_map, Function.comp_def, mapM_eq_some each]
  rfl

theorem detectAndParse_calls {before : List Char} {blocks : List PsBlock}
    (free : FreeOf [blockOpen, invokeOpen] before) (wf : ∀ b ∈ blocks, b.Wf grammar env)
    (plain : ∀ b ∈ blocks, PlainBlock env b) :
    ∃ shot, detectAndParse env (before ++ blocksText grammar blocks) = some shot ∧
      SameCalls (sentCalls grammar env blocks) shot.calls := by
  have sent : sentCalls grammar env blocks =
      (blocks.flatMap PsBlock.invokes).map (PsInvoke.call grammar env) := by
    rw [sentCalls, List.map_flatMap]
  have each : ∀ i ∈ blocks.flatMap PsBlock.invokes, parseInvoke env
      (i.rawName, i.gap ++ paramsText grammar i.params []) =
        some (some (i.item grammar env 0)) := by
    intro i mem
    obtain ⟨b, hb, hi⟩ := List.mem_flatMap.mp mem
    exact parseInvoke_eq ((wf b hb).invokes i hi) ((plain b hb).invokes i hi)
  have all := mapM_eq_some each
  rw [← Function.comp_def some, ← List.map_map] at all
  have collect (items : List ToolCallItem) : (items.map some).filterMap id = items := by simp
  unfold detectAndParse
  cases opens : findSub blockOpen (before ++ blocksText grammar blocks) with
  | none =>
    refine ⟨_, rfl, ?_⟩
    cases blocks with
    | nil => exact .nil
    | cons b blocks =>
      refine absurd ?_ (findSub_eq_none_iff.mp opens)
      exact ⟨before, _, List.append_assoc _ _ _⟩
  | some idx =>
    simp only
    rw [findAll_text free wf plain, List.mapM_map, Function.comp_def, all]
    refine ⟨_, rfl, ?_⟩
    simp only [collect, sent]
    exact sameCalls_numbered (sameCalls_item grammar env _ _)

end

end MiniMaxDetector

end FreeSwarm.Server
