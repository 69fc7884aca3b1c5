import FreeSwarm.Server.StreamLoop
import FreeSwarm.Server.TagPatterns

/-!
# GLM-4.7

The tool calls of GLM-4.7: a block for each call, with the name of the function and pairs of a key and
a value. One-shot parsing cuts the text into blocks, and a block into its name and its pairs. A stream
looks for the tag that ends the part it is in, and sends the values that are text as they come.
-/

namespace FreeSwarm.Server

open FreeSwarm.Foundation

namespace Glm47Detector

def botToken : List Char := "<tool_call>".toList

def eotToken : List Char := "</tool_call>".toList

def keyOpen : List Char := "<arg_key>".toList

def keyClose : List Char := "</arg_key>".toList

def valOpen : List Char := "<arg_value>".toList

def valClose : List Char := "</arg_value>".toList

/-! ## One-shot parsing -/

variable (text : List Char) (env : ToolSetup)

/-- The name of the function, which has no bracket and no line break, behind the tag that opens a
call, and what follows it: a line break, which is taken, a key, or the end of the call. -/
def funcDetail : Option (List Char × List Char) :=
  if botToken <+: text then
    let text := text.drop botToken.length
    let name := text.takeWhile fun c => c ≠ '<' && c ≠ '\n'
    let rest := text.drop name.length
    if name = [] then none
    else if rest.head? = some '\n' then some (name, rest.tail)
    else if keyOpen <+: rest ∨ eotToken <+: rest then some (name, rest)
    else none
  else none

/-- What follows the end of a key and the tag that opens a value. -/
def valueStart : Option (List Char) :=
  if keyClose <+: text then
    let rest := lstrip (text.drop keyClose.length)
    if valOpen <+: rest then some (rest.drop valOpen.length) else none
  else none

/-- A key, up to the first end of one behind which a value is opened, and what follows the tag that
opens it. -/
def keyThenValue : List Char → Option (List Char × List Char)
  | [] => none
  | c :: text =>
    match valueStart (c :: text) with
    | some rest => some ([], rest)
    | none => (keyThenValue text).map fun (key, rest) => (c :: key, rest)

/-- A key and its value at the start of a text. -/
def funcArg : Option ((List Char × List Char) × List Char) :=
  if keyOpen <+: text then
    match keyThenValue (text.drop keyOpen.length) with
    | none => none
    | some (key, inside) =>
      (splitSub valClose inside).map fun (value, rest) => ((key, value), rest)
  else none

/-- The value of a declared parameter by its type, and that of any other as JSON when it is. -/
def convertValue (py : Conversions) (value key : List Char) (paramConfig : ParamConfig) :
    Option Json :=
  if (paramConfig.lookup key).isSome then convertParamValue py value key paramConfig
  else (py.loads value).getD (some (.str value))

def parseXmlArguments (py : Conversions) (argText : List Char) (paramConfig : ParamConfig) :
    Option (List (List Char × Json)) :=
  ((findAll (searchTag funcArg) argText).mapM fun (key, value) =>
    (convertValue py (strip value) (strip key) paramConfig).map fun v => (strip key, v)).map dictOf

/-- The call of a block, unless the block is malformed, its tool is unknown or a conversion fails. A
tool that is unknown and passed on is numbered by the calls before it. -/
def parseBlock (calls : Nat) (body : List Char) : Option ToolCallItem :=
  match searchTag funcDetail (botToken ++ (body ++ eotToken)) with
  | none => none
  | some (rawName, detail) =>
    let funcName := strip rawName
    let argText := before eotToken detail
    if env.accepts funcName then
      (parseXmlArguments env.py argText (env.paramConfig funcName)).map fun args =>
        { toolIndex := (((env.toolIndices.lookup funcName).getD calls : Nat) : Int)
          name := some funcName
          parameters := (Json.obj args).dumps }
    else none

def parseBlocks (calls : List ToolCallItem) (blocks : List (List Char)) :
    List ToolCallItem :=
  blocks.foldl (fun calls body => calls ++ (parseBlock env calls.length body).toList) calls

def detectAndParse (text : List Char) : StreamingParseResult :=
  match findSub botToken text with
  | none => ⟨text, []⟩
  | some idx =>
    ⟨strip (text.take idx), parseBlocks env [] (findAll (between botToken eotToken) text)⟩

/-! ## Texts -/

end Glm47Detector

/-- A pair: the key, what stands between it and its value, the value, and what follows. -/
structure GlmArg where
  rawKey : List Char
  space : List Char
  value : List Char
  gap : List Char

/-- A call: what comes before its first pair, its pairs, and the ordinary text behind it. -/
structure GlmCall where
  head : List Char
  args : List GlmArg
  after : List Char

namespace Glm47Detector

def argsText (args : List GlmArg) (rest : List Char) : List Char :=
  args.foldr (fun a rest => keyOpen ++ (a.rawKey ++ (keyClose ++ (a.space ++ (valOpen ++ (a.value ++
    (valClose ++ (a.gap ++ rest)))))))) rest

def callsText (calls : List GlmCall) : List Char :=
  calls.foldr (fun c rest =>
    botToken ++ (c.head ++ argsText c.args (eotToken ++ (c.after ++ rest)))) []

def ordinaryText (calls : List GlmCall) : List Char := calls.flatMap GlmCall.after

end Glm47Detector

open Glm47Detector

namespace GlmArg

variable (env : ToolSetup) (paramConfig : ParamConfig) (a : GlmArg)

def key : List Char := strip a.rawKey

def Streamed : Prop :=
  schemaParamType env.py a.key paramConfig "loose".toList ∈ stringTypes

instance (env : ToolSetup) (paramConfig : ParamConfig) (a : GlmArg) :
    Decidable (a.Streamed env paramConfig) := by
  unfold Streamed
  infer_instance

def sentValue : Option Json :=
  if a.Streamed env paramConfig then some (.str (strip a.value))
  else convertValue env.py (strip a.value) a.key paramConfig

/-- The pair that is sent. -/
def member : List Char × Json :=
  (a.key, (a.sentValue env paramConfig).getD .null)

/-- A pair that is complete and whose value can be converted. -/
structure Wf : Prop where
  key : FreeOf [keyClose] a.rawKey
  space : Blank a.space
  value : FreeOf [valClose] a.value
  gap : FreeOf [keyOpen, eotToken] a.gap
  converts : (a.sentValue env paramConfig).isSome

end GlmArg

namespace GlmCall

variable (env : ToolSetup) (c : GlmCall)

/-- The name as it stands in the text: up to a line break, or up to the first tag. -/
def rawName : List Char := c.head.takeWhile (· ≠ '\n')

def name : List Char := strip c.rawName

/-- What stands between the name and the first tag. -/
def gap : List Char := (c.head.dropWhile (· ≠ '\n')).tail

def sent : List Char × List Char :=
  (c.name, Json.compact (c.args.map (GlmArg.member env (env.paramConfig c.name))))

def item (index : Int) (c : GlmCall) : ToolCallItem :=
  { toolIndex := index
    name := some c.name
    parameters :=
      (Json.obj (dictOf (c.args.map (GlmArg.member env (env.paramConfig c.name))))).dumps }

theorem same_item (env : ToolSetup) (index : Int) (c : GlmCall) :
    (c.item env index).name = some (c.sent env).1 ∧
      ∃ v, Json.loads (c.sent env).2 = some v ∧ Json.loads (c.item env index).parameters = some v :=
  ⟨rfl, _, Json.loads_compact _, (Json.loads_compact_eq _).symm.trans (Json.loads_compact _)⟩

structure Wf : Prop where
  head : FreeOf [keyOpen, eotToken] c.head
  named : c.name ≠ []
  known : env.accepts c.name = true
  args : ∀ a ∈ c.args, a.Wf env (env.paramConfig c.name)
  after : FreeOf [botToken] c.after

theorem Wf.gap {env : ToolSetup} {c : GlmCall} (wf : c.Wf env) : FreeOf [keyOpen, eotToken] c.gap := by
  have within : c.gap <:+: c.head :=
    ((List.tail_suffix _).trans (List.dropWhile_suffix _)).isInfix
  exact fun tok mem occurs => wf.head tok mem (occurs.trans within)

/-- A call in which nothing quotes the tag that ends it, no bracket is in the name, and no text value
reads `null`. -/
structure Plain : Prop where
  quotes : FreeOf [eotToken] (c.head ++ argsText c.args [])
  name : '<' ∉ c.rawName
  /-- A value that is streamed as text does not read `null`. -/
  texts : ∀ a ∈ c.args, a.Streamed env (env.paramConfig c.name) →
    lower (strip a.value) ≠ "null".toList

end GlmCall

namespace Glm47Detector

section
variable {env : ToolSetup} {paramConfig : ParamConfig}

theorem argsText_append (args : List GlmArg) (rest : List Char) :
    argsText args rest = argsText args [] ++ rest := by
  induction args with
  | nil => rfl
  | cons a args ih =>
    simp only [argsText, List.foldr_cons, List.append_assoc] at ih ⊢
    rw [ih]

/-! ## Complete calls at once -/

theorem headed_call : Headed '<' [keyOpen, eotToken] := ⟨by decide, by decide, by decide⟩

theorem headed_keyClose : Headed '<' [keyClose] := ⟨by decide, by decide, by decide⟩

theorem headed_valOpen : Headed '<' [valOpen] := ⟨by decide, by decide, by decide⟩

theorem headed_valClose : Headed '<' [valClose] := ⟨by decide, by decide, by decide⟩

theorem headed_botToken : Headed '<' [botToken] := ⟨by decide, by decide, by decide⟩

theorem headed_eotToken : Headed '<' [eotToken] := ⟨by decide, by decide, by decide⟩

theorem keyThenValue_ahead {key space : List Char} (free : FreeOf [keyClose] key)
    (blank : Blank space) (rest : List Char) :
    keyThenValue (key ++ (keyClose ++ (space ++ (valOpen ++ rest)))) = some (key, rest) := by
  have clear := @Headed.clear_ahead _ _ _ _ _ _ (space ++ (valOpen ++ rest)) headed_keyClose
    (List.mem_singleton_self _) free (List.mem_singleton_self _)
  induction key with
  | nil =>
    have here : valueStart (keyClose ++ (space ++ (valOpen ++ rest))) = some rest := by
      have opened : lstrip (space ++ (valOpen ++ rest)) = valOpen ++ rest := by
        rw [lstrip_append_of_blank blank]
        exact List.dropWhile_cons_of_neg (by decide)
      rw [valueStart, if_pos (List.prefix_append _ _), List.drop_left, opened]
      simp
    obtain ⟨c, tail, same⟩ : ∃ c tail, keyClose = c :: tail := ⟨_, _, rfl⟩
    rw [List.nil_append]
    rw [same, List.cons_append] at here ⊢
    rw [keyThenValue, here]
  | cons c key ih =>
    have here : valueStart (c :: (key ++ (keyClose ++ (space ++ (valOpen ++ rest))))) = none :=
      if_neg (clear 0 (by simp))
    have later := ih (fun tok mem occurs => free tok mem (List.infix_cons occurs))
      fun d below occurs => clear (d + 1) (by simpa using below) occurs
    rw [List.cons_append, keyThenValue, here, later]
    rfl

theorem keyThenValue_length {text key rest : List Char}
    (found : keyThenValue text = some (key, rest)) : rest.length ≤ text.length := by
  induction text generalizing key with
  | nil => exact absurd found (by simp [keyThenValue])
  | cons c text ih =>
    rw [keyThenValue] at found
    cases start : valueStart (c :: text) with
    | none =>
      rw [start] at found
      obtain ⟨⟨key', rest'⟩, later, same⟩ := Option.map_eq_some_iff.mp found
      obtain ⟨-, rfl⟩ := Prod.mk.inj same
      exact (ih later).trans (Nat.le_succ _)
    | some rest' =>
      rw [start] at found
      obtain ⟨-, rfl⟩ := Prod.mk.inj (Option.some.inj found)
      unfold valueStart at start
      simp only at start
      split_ifs at start
      cases start
      have stripped := (List.dropWhile_suffix (l := (c :: text).drop keyClose.length)
        isSpace).length_le
      rw [← lstrip] at stripped
      rw [List.length_drop] at stripped ⊢
      omega

theorem funcArg_consumes : Consumes (searchTag funcArg) := by
  have shortens : ∀ text found rest, funcArg text = some (found, rest) →
      rest.length < text.length := by
    intro text found rest matched
    unfold funcArg at matched
    split_ifs at matched with opens
    cases key : keyThenValue (text.drop keyOpen.length) with
    | none => simp [key] at matched
    | some result =>
      obtain ⟨key_, inside⟩ := result
      simp only [key] at matched
      obtain ⟨⟨value, rest'⟩, split, same⟩ := Option.map_eq_some_iff.mp matched
      obtain rfl : rest' = rest := (Prod.mk.inj same).2
      have whole := splitSub_length split
      have shorter := keyThenValue_length key
      have fits := opens.length_le
      have long : 0 < keyOpen.length := by decide
      rw [List.length_drop] at shorter
      omega
  intro text found rest matched
  induction text with
  | nil => exact absurd matched (by simp [searchTag])
  | cons c text ih =>
    rw [searchTag] at matched
    cases here : funcArg (c :: text) with
    | some result =>
      rw [here] at matched
      cases matched
      exact shortens _ _ _ here
    | none =>
      rw [here] at matched
      exact (ih matched).trans (Nat.lt_succ_self _)

theorem findAll_args {gap : List Char} {args : List GlmArg} (free : FreeOf [keyOpen, eotToken] gap)
    (wf : ∀ a ∈ args, a.Wf env paramConfig) :
    findAll (searchTag funcArg) (gap ++ argsText args []) = args.map fun a => (a.rawKey, a.value) := by
  have starts : ∀ text, ¬ keyOpen <+: text → funcArg text = none := fun text absent => if_neg absent
  induction args generalizing gap with
  | nil =>
    refine findAll_none ?_
    have clear : ClearBelow keyOpen gap.length (gap ++ []) := by
      rw [List.append_nil]
      exact clearBelow_of_free (free _ (by simp)) _
    exact searchTag_skip starts clear
  | cons a args ih =>
    obtain ⟨here, later⟩ := List.forall_mem_cons.mp wf
    have clear : ClearBelow keyOpen gap.length (gap ++ argsText (a :: args) []) :=
      headed_call.clear_ahead (by simp) free (by simp)
    have matched : funcArg (argsText (a :: args) []) =
        some ((a.rawKey, a.value), a.gap ++ argsText args []) := by
      have opens : keyOpen <+: argsText (a :: args) [] := List.prefix_append _ _
      rw [funcArg, if_pos opens]
      simp only [argsText, List.foldr_cons, List.drop_left]
      rw [keyThenValue_ahead here.key here.space]
      simp only
      rw [headed_valClose.splitSub_ahead (List.mem_singleton_self _) here.value]
      rfl
    have first : searchTag funcArg (gap ++ argsText (a :: args) []) =
        some ((a.rawKey, a.value), a.gap ++ argsText args []) := by
      rw [searchTag_skip starts clear]
      exact searchTag_of_match (List.cons_ne_nil _ _) matched
    rw [findAll_some funcArg_consumes first, List.map_cons]
    exact congrArg (_ :: ·) (ih here.gap later)

theorem parseXmlArguments_eq {gap : List Char} {args : List GlmArg}
    (free : FreeOf [keyOpen, eotToken] gap) (wf : ∀ a ∈ args, a.Wf env paramConfig)
    (texts : ∀ a ∈ args, a.Streamed env paramConfig → lower (strip a.value) ≠ "null".toList) :
    parseXmlArguments env.py (gap ++ argsText args []) paramConfig =
      some (dictOf (args.map (GlmArg.member env paramConfig))) := by
  have each : ∀ a ∈ args, (convertValue env.py (strip a.value) (strip a.rawKey) paramConfig).map
      (fun v => (strip a.rawKey, v)) = some (a.member env paramConfig) := by
    intro a mem
    have converts : convertValue env.py (strip a.value) (strip a.rawKey) paramConfig =
        a.sentValue env paramConfig := by
      rw [GlmArg.sentValue]
      by_cases streamed : a.Streamed env paramConfig
      · obtain ⟨declared, string⟩ := schemaParamType_loose streamed
        rw [if_pos streamed]
        refine (if_pos declared).trans ?_
        exact convertParamValue_string (texts a mem streamed) string
      · rw [if_neg streamed]
        rfl
    obtain ⟨v, sent⟩ := Option.isSome_iff_exists.mp (wf a mem).converts
    rw [converts, GlmArg.member, sent]
    rfl
  rw [parseXmlArguments, findAll_args free wf, List.mapM_map, Function.comp_def, mapM_eq_some each]
  rfl

/-- The name of a call and what follows it, up to the first pair, make up what comes before that. -/
theorem head_eq (c : GlmCall) :
    c.head = c.rawName ++ '\n' :: c.gap ∨ c.head = c.rawName ∧ c.gap = [] := by
  have split : c.head = c.rawName ++ c.head.dropWhile (· ≠ '\n') :=
    List.takeWhile_append_dropWhile.symm
  cases rest : c.head.dropWhile (· ≠ '\n') with
  | nil =>
    right
    rw [rest, List.append_nil] at split
    exact ⟨split, by rw [GlmCall.gap, rest]; rfl⟩
  | cons c' gap =>
    left
    have first := List.head?_dropWhile_not (· ≠ '\n') c.head
    rw [rest] at first
    obtain rfl : c' = '\n' := by simpa using first
    rw [split, rest, GlmCall.gap, rest]
    rfl

theorem newline_not_mem (c : GlmCall) : '\n' ∉ c.rawName := fun mem =>
  absurd (List.mem_takeWhile_imp mem) (by simp)

theorem funcDetail_block {c : GlmCall} (wf : c.Wf env) (plain : c.Plain env) :
    searchTag funcDetail (botToken ++ ((c.head ++ argsText c.args []) ++ eotToken)) =
      some (c.rawName, c.gap ++ argsText c.args [] ++ eotToken) := by
  refine searchTag_of_match (List.cons_ne_nil _ _) ?_
  rw [funcDetail, if_pos (List.prefix_append _ _), List.drop_left]
  have some_ : c.rawName ≠ [] := fun empty => wf.named (by rw [GlmCall.name, empty]; rfl)
  have low : ∀ ch ∈ c.rawName, (ch ≠ '<' && ch ≠ '\n') = true := by
    intro ch mem
    have bracket : ch ≠ '<' := fun same => plain.name (same ▸ mem)
    have newline : ch ≠ '\n' := fun same => newline_not_mem c (same ▸ mem)
    simp [bracket, newline]
  rcases head_eq c with same | ⟨same, gap⟩
  · have name : (c.head ++ argsText c.args [] ++ eotToken).takeWhile
        (fun ch => ch ≠ '<' && ch ≠ '\n') = c.rawName := by
      rw [same, List.append_assoc, List.append_assoc, List.takeWhile_append_of_pos low]
      simp
    have rest : (c.head ++ argsText c.args [] ++ eotToken).drop c.rawName.length =
        '\n' :: (c.gap ++ argsText c.args [] ++ eotToken) := by
      rw [same, List.append_assoc, List.append_assoc, List.drop_left]
      simp
    simp only [name, rest, if_neg some_]
    rfl
  · have opens : keyOpen <+: argsText c.args [] ++ eotToken ∨
        eotToken <+: argsText c.args [] ++ eotToken := by
      cases c.args with
      | nil => exact .inr (List.prefix_append eotToken [])
      | cons a args =>
        refine .inl ?_
        simp only [argsText, List.foldr_cons, List.append_assoc]
        exact List.prefix_append _ _
    obtain ⟨tail, bracket⟩ : ∃ tail, argsText c.args [] ++ eotToken = '<' :: tail := by
      rcases opens with ⟨tail, h⟩ | ⟨tail, h⟩
      · exact ⟨_, h.symm⟩
      · exact ⟨_, h.symm⟩
    have name : (c.head ++ argsText c.args [] ++ eotToken).takeWhile
        (fun ch => ch ≠ '<' && ch ≠ '\n') = c.rawName := by
      rw [same, List.append_assoc, List.takeWhile_append_of_pos low, bracket]
      simp
    have rest : (c.head ++ argsText c.args [] ++ eotToken).drop c.rawName.length =
        argsText c.args [] ++ eotToken := by
      rw [same, List.append_assoc, List.drop_left]
    have newline : (argsText c.args [] ++ eotToken).head? ≠ some '\n' := by
      rw [bracket]
      simp
    simp only [name, rest, if_neg some_, if_neg newline, if_pos opens, gap, List.nil_append]

theorem parseBlock_eq {c : GlmCall} (wf : c.Wf env) (plain : c.Plain env) (calls : Nat) :
    ∃ index, parseBlock env calls (c.head ++ argsText c.args []) = some (c.item env index) := by
  have free : FreeOf [eotToken] (c.gap ++ argsText c.args []) := by
    have within : c.gap ++ argsText c.args [] <:+ c.head ++ argsText c.args [] := by
      rcases head_eq c with same | ⟨same, gap⟩
      · conv_rhs => rw [same]
        exact ⟨c.rawName ++ ['\n'], by simp⟩
      · rw [gap, List.nil_append]
        exact List.suffix_append _ _
    exact fun tok mem occurs => plain.quotes tok mem (occurs.trans within.isInfix)
  have argText : before eotToken (c.gap ++ argsText c.args [] ++ eotToken) =
      c.gap ++ argsText c.args [] := by
    have found : findSub eotToken (c.gap ++ argsText c.args [] ++ eotToken) =
        some (c.gap ++ argsText c.args []).length := by
      have clear := @Headed.clear_ahead _ _ _ _ _ _ [] headed_eotToken (List.mem_singleton_self _)
        free (List.mem_singleton_self _)
      rw [List.append_nil] at clear
      refine findSub_of_clear ?_ clear
      rw [List.drop_left]
    rw [before, found]
    exact List.take_left
  have known : env.accepts (strip c.rawName) = true := wf.known
  refine ⟨(((env.toolIndices.lookup c.name).getD calls : Nat) : Int), ?_⟩
  rw [parseBlock, funcDetail_block wf plain]
  simp only [argText, known, if_true]
  rw [show strip c.rawName = c.name from rfl, parseXmlArguments_eq wf.gap wf.args plain.texts]
  rfl

variable {calls : List GlmCall}

theorem findAll_calls {before : List Char} (free : FreeOf [botToken] before)
    (wf : ∀ c ∈ calls, c.Wf env) (plain : ∀ c ∈ calls, c.Plain env) :
    findAll (between botToken eotToken) (before ++ callsText calls) =
      calls.map fun c => c.head ++ argsText c.args [] := by
  induction calls generalizing before with
  | nil =>
    refine findAll_none ?_
    have none_ : splitSub botToken (before ++ []) = none :=
      splitSub_eq_none (by rw [List.append_nil]; exact free _ (by simp))
    rw [between, callsText, List.foldr_nil, none_]
  | cons c calls ih =>
    obtain ⟨here, later⟩ := List.forall_mem_cons.mp wf
    obtain ⟨here', later'⟩ := List.forall_mem_cons.mp plain
    have text : before ++ callsText (c :: calls) =
        before ++ (botToken ++ ((c.head ++ argsText c.args []) ++
          (eotToken ++ (c.after ++ callsText calls)))) := by
      have inner := argsText_append c.args (eotToken ++ (c.after ++ callsText calls))
      have outer : callsText (c :: calls) =
          botToken ++ (c.head ++ argsText c.args (eotToken ++ (c.after ++ callsText calls))) := rfl
      rw [outer, inner]
      simp only [List.append_assoc]
    have next : between botToken eotToken (before ++ callsText (c :: calls)) =
        some (c.head ++ argsText c.args [], c.after ++ callsText calls) := by
      rw [between, text, headed_botToken.splitSub_ahead (List.mem_singleton_self _) free]
      exact headed_eotToken.splitSub_ahead (List.mem_singleton_self _) here'.quotes _
    rw [findAll_some (between_consumes (by decide) _) next, List.map_cons]
    exact congrArg (_ :: ·) (ih here.after later later')

theorem sameCalls_parseBlocks (wf : ∀ c ∈ calls, c.Wf env)
    (plain : ∀ c ∈ calls, c.Plain env) (items : List ToolCallItem) :
    ∃ more, parseBlocks env items (calls.map fun c => c.head ++ argsText c.args []) = items ++ more ∧
      SameCalls (calls.map (GlmCall.sent env)) more := by
  induction calls generalizing items with
  | nil => exact ⟨[], (List.append_nil _).symm, .nil⟩
  | cons c calls ih =>
    obtain ⟨here, later⟩ := List.forall_mem_cons.mp wf
    obtain ⟨here', later'⟩ := List.forall_mem_cons.mp plain
    obtain ⟨index, parsed⟩ := parseBlock_eq here here' items.length
    obtain ⟨more, same, calls_⟩ := ih later later' (items ++ [c.item env index])
    refine ⟨c.item env index :: more, ?_, .cons (c.same_item env index) calls_⟩
    rw [List.map_cons, parseBlocks, List.foldl_cons, parsed]
    exact same.trans (List.append_assoc _ _ _)

theorem detectAndParse_calls {before : List Char}
    (free : FreeOf [botToken] before) (wf : ∀ c ∈ calls, c.Wf env)
    (plain : ∀ c ∈ calls, c.Plain env) :
    SameCalls (calls.map (GlmCall.sent env)) (detectAndParse env (before ++ callsText calls)).calls := by
  rw [detectAndParse]
  cases opens : findSub botToken (before ++ callsText calls) with
  | none =>
    cases calls with
    | nil => exact .nil
    | cons c calls =>
      exact absurd ⟨before, _, List.append_assoc _ _ _⟩ (findSub_eq_none_iff.mp opens)
  | some idx =>
    obtain ⟨more, same, calls_⟩ := sameCalls_parseBlocks wf plain []
    simp only
    rw [findAll_calls free wf plain, same]
    exact calls_

end

end Glm47Detector

end FreeSwarm.Server
