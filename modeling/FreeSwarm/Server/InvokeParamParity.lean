import FreeSwarm.Server.MiniMaxM2
import FreeSwarm.Server.Qwen3Coder

/-!
# Streams of blocks and one-shot parsing

The two families of invoke and parameter blocks side by side: what a stream sends is the same however
the text is cut, and it is what one-shot parsing returns, unless one of the two misreads a value.
-/

namespace FreeSwarm.Server

open FreeSwarm.Foundation

/-- However the text is cut, its stream sends these calls whole, in this order, and arguments that are
valid JSON, when at least so many empty steps follow it. -/
def StreamsCalls (g : InvokeParamGrammar) (env : ToolSetup) (text : List Char) (steps : Nat)
    (calls : List (List Char × List Char)) : Prop :=
  (∀ call ∈ calls, (Json.loads call.2).isSome) ∧
    ∀ pieces : List (List Char), pieces.flatten = text → ∀ more, steps ≤ more →
      ∃ s out, InvokeParamStream.start.feed g env (pieces ++ List.replicate more []) = some (s, out) ∧
        callEvents out.calls = wholeCalls 0 calls

theorem streamsCalls_blocks {g : InvokeParamGrammar} {env : ToolSetup} (lawful : g.Lawful)
    {before : List Char} {blocks : List PsBlock} (free : FreeOf [g.outerOpen] before)
    (wf : ∀ b ∈ blocks, b.Wf g env) :
    StreamsCalls g env (before ++ blocksText g blocks) blocks.length (sentCalls g env blocks) := by
  refine ⟨fun call mem => ?_, fun pieces whole more enough => ?_⟩
  · obtain ⟨b, -, mem⟩ := List.mem_flatMap.mp mem
    obtain ⟨i, -, rfl⟩ := List.mem_map.mp mem
    exact Option.isSome_iff_exists.mpr ⟨_, Json.loads_compact _⟩
  · obtain ⟨s, out, fed, -, calls, -⟩ := feed_complete lawful free wf pieces whole enough
    exact ⟨s, out, fed, calls⟩

/-- The calls of Qwen3-Coder and of MiniMax M2, streamed in any pieces, are valid JSON that does not
depend on the pieces, and they are the calls of one-shot parsing when no name, key or value quotes a
tag of an outer level, no text reads `null` and no text outside blocks has a tag of an inner level. -/
theorem blocks_stream_parity (env : ToolSetup) (before : List Char) (blocks : List PsBlock) :
    (FreeOf [Qwen3CoderDetector.toolCallOpen] before →
      (∀ b ∈ blocks, b.Wf Qwen3CoderDetector.grammar env) →
      ∃ calls, StreamsCalls Qwen3CoderDetector.grammar env
          (before ++ blocksText Qwen3CoderDetector.grammar blocks) blocks.length calls ∧
        (FreeOf [Qwen3CoderDetector.functionOpen] before →
          (∀ b ∈ blocks, Qwen3CoderDetector.PlainBlock env b) →
          ∃ shot, Qwen3CoderDetector.detectAndParse env
              (before ++ blocksText Qwen3CoderDetector.grammar blocks) = some shot ∧
            SameCalls calls shot.calls)) ∧
    (FreeOf [MiniMaxDetector.blockOpen] before →
      (∀ b ∈ blocks, b.Wf MiniMaxDetector.grammar env) →
      ∃ calls, StreamsCalls MiniMaxDetector.grammar env
          (before ++ blocksText MiniMaxDetector.grammar blocks) blocks.length calls ∧
        (FreeOf [MiniMaxDetector.invokeOpen] before →
          (∀ b ∈ blocks, MiniMaxDetector.PlainBlock env b) →
          ∃ shot, MiniMaxDetector.detectAndParse env
              (before ++ blocksText MiniMaxDetector.grammar blocks) = some shot ∧
            SameCalls calls shot.calls)) := by
  constructor
  · intro free wf
    refine ⟨_, streamsCalls_blocks Qwen3CoderDetector.grammar_lawful free wf, fun free' plain => ?_⟩
    exact Qwen3CoderDetector.detectAndParse_calls (free.cons free') wf plain
  · intro free wf
    refine ⟨_, streamsCalls_blocks MiniMaxDetector.grammar_lawful free wf, fun free' plain => ?_⟩
    exact MiniMaxDetector.detectAndParse_calls (free.cons free') wf plain

/-! ## An example -/

/-- A call of that function in a block, with ordinary text behind it. -/
def noteBlock (invokeTag paramTag : List Char) : PsBlock :=
  { gap := ['\n']
    invokes := [{ tag := invokeTag, rawName := "note".toList, gap := ['\n']
                  params := [{ tag := paramTag, rawName := "text".toList
                               value := "\n<b>\n".toList, gap := ['\n'] }]
                  after := ['\n'] }]
    after := "ok".toList }

theorem blocks_stream_parity_note :
    (∃ calls, StreamsCalls Qwen3CoderDetector.grammar noteSetup
        ("a".toList ++ blocksText Qwen3CoderDetector.grammar
          [noteBlock "<function=note>".toList "<parameter=text>".toList]) 1 calls ∧
      ∃ shot, Qwen3CoderDetector.detectAndParse noteSetup
          ("a".toList ++ blocksText Qwen3CoderDetector.grammar
            [noteBlock "<function=note>".toList "<parameter=text>".toList]) = some shot ∧
        SameCalls calls shot.calls) ∧
    (∃ calls, StreamsCalls MiniMaxDetector.grammar noteSetup
        ("a".toList ++ blocksText MiniMaxDetector.grammar
          [noteBlock "<invoke name=\"note\">".toList "<parameter name=\"text\">".toList]) 1 calls ∧
      ∃ shot, MiniMaxDetector.detectAndParse noteSetup
          ("a".toList ++ blocksText MiniMaxDetector.grammar
            [noteBlock "<invoke name=\"note\">".toList "<parameter name=\"text\">".toList]) =
              some shot ∧
        SameCalls calls shot.calls) := by
  constructor
  · have invokeTag : IsTag (bracketTag Qwen3CoderDetector.functionOpen)
          "<function=note>".toList "note".toList ∧
        Qwen3CoderDetector.functionOpen <+: "<function=note>".toList :=
      (isTag_bracketTag_iff (by decide) (by decide)).mpr (by decide)
    have paramTag : IsTag (bracketTag Qwen3CoderDetector.parameterOpen)
          "<parameter=text>".toList "text".toList ∧
        Qwen3CoderDetector.parameterOpen <+: "<parameter=text>".toList :=
      (isTag_bracketTag_iff (by decide) (by decide)).mpr (by decide)
    have wf : ∀ b ∈ [noteBlock "<function=note>".toList "<parameter=text>".toList],
        b.Wf Qwen3CoderDetector.grammar noteSetup :=
      List.forall_mem_singleton.mpr ⟨by decide, List.forall_mem_singleton.mpr
        ⟨invokeTag.1, invokeTag.2, by decide, by decide, List.forall_mem_singleton.mpr
          ⟨paramTag.1, paramTag.2, by decide, by decide, by decide⟩, by decide⟩, by decide⟩
    have plain : ∀ b ∈ [noteBlock "<function=note>".toList "<parameter=text>".toList],
        Qwen3CoderDetector.PlainBlock noteSetup b :=
      List.forall_mem_singleton.mpr ⟨by decide, List.forall_mem_singleton.mpr
        ⟨by decide, List.forall_mem_singleton.mpr ⟨by decide, by decide⟩⟩⟩
    obtain ⟨calls, streams, same⟩ := (blocks_stream_parity noteSetup "a".toList _).1 (by decide) wf
    exact ⟨calls, streams, same (by decide) plain⟩
  · have invokeTag : IsTag (nameTag MiniMaxDetector.invokeOpen) "<invoke name=\"note\">".toList _ :=
      @isTag_nameTag _ "note".toList [' '] [] (by decide) (by decide) (by decide) (by decide)
        (by decide) (by decide) (by decide)
    have paramTag : IsTag (nameTag MiniMaxDetector.parameterOpen)
        "<parameter name=\"text\">".toList _ :=
      @isTag_nameTag _ "text".toList [' '] [] (by decide) (by decide) (by decide) (by decide)
        (by decide) (by decide) (by decide)
    have wf : ∀ b ∈ [noteBlock "<invoke name=\"note\">".toList "<parameter name=\"text\">".toList],
        b.Wf MiniMaxDetector.grammar noteSetup :=
      List.forall_mem_singleton.mpr ⟨by decide, List.forall_mem_singleton.mpr
        ⟨invokeTag, by decide, by decide, by decide, List.forall_mem_singleton.mpr
          ⟨paramTag, by decide, by decide, by decide, by decide⟩, by decide⟩, by decide⟩
    have plain : ∀ b ∈ [noteBlock "<invoke name=\"note\">".toList "<parameter name=\"text\">".toList],
        MiniMaxDetector.PlainBlock noteSetup b :=
      List.forall_mem_singleton.mpr ⟨List.forall_mem_singleton.mpr
        ⟨by decide, by decide, List.forall_mem_singleton.mpr (by decide)⟩, by decide⟩
    obtain ⟨calls, streams, same⟩ := (blocks_stream_parity noteSetup "a".toList _).2 (by decide) wf
    exact ⟨calls, streams, same (by decide) plain⟩

/-- Qwen3-Coder gives the second of two calls that arrive together with the next step only, streams a
text that reads `null` as that text where one-shot parsing returns no value, and streams a quoted tag
that one-shot parsing takes for the end of the value. -/
theorem blocks_stream_differs :
    let call (value : String) := "<tool_call><function=note><parameter=text>" ++ value ++
      "</parameter></function></tool_call>"
    let streamed (whole : String) := (InvokeParamStream.start.feed Qwen3CoderDetector.grammar noteSetup
      [whole.toList]).map fun (_, out) => callEvents out.calls
    let parsed (whole : String) := (Qwen3CoderDetector.detectAndParse noteSetup whole.toList).map
      fun out => out.calls.map ToolCallItem.parameters
    let sent (value : String) :=
      some (wholeCalls 0 [("note".toList, Json.compact [("text".toList, .str value.toList)])])
    let arguments (v : Json) := (Json.obj [("text".toList, v)]).dumps
    (streamed (call "a" ++ call "b") = sent "a" ∧ parsed (call "a" ++ call "b") =
        some [arguments (.str "a".toList), arguments (.str "b".toList)]) ∧
      (streamed (call "null") = sent "null" ∧ parsed (call "null") = some [arguments .null]) ∧
      (streamed (call "a</function>b") = sent "a</function>b" ∧
        parsed (call "a</function>b") = some [arguments (.str "a".toList)]) := by
  intro call streamed parsed sent arguments
  have front : "<tool_call><function=note><parameter=text>".toList = _ := String.toList_ofList
  have back : "</parameter></function></tool_call>".toList = _ := String.toList_ofList
  simp only [streamed, parsed, call, String.toList_append, front, back]
  decide +kernel

end FreeSwarm.Server
