import Mathlib.Data.List.Find
import FreeSwarm.Tokenizer.Detokenize

/-!
# Ending a generation

When a batch is drained, each sampled token is appended to its request and tested: an
end-of-sequence token, a stop string in the decoded tail, or the exhausted output budget ends the
generation. The tail holds one token more than the longest stop string has characters.
-/

namespace FreeSwarm.Scheduler.Finish

open FreeSwarm.Foundation FreeSwarm.Tokenizer

structure SamplingParams where
  ignoreEos : Bool
  stopStrs : List (List Char)

/-- What the drain reads of a request. -/
structure Req where
  inputIds : List Nat
  outputLen : Nat
  maxDeviceLen : Nat
  uid : Nat
  samplingParams : SamplingParams

/-- A request as it is admitted. -/
def Req.start (uid : Nat) (prompt : List Nat) (outputLen : Nat) (params : SamplingParams) : Req :=
  { inputIds := prompt, outputLen := outputLen, maxDeviceLen := prompt.length + outputLen,
    uid := uid, samplingParams := params }

/-- Append a sampled token; the buffer holds no more than the prompt and the output budget. -/
def Req.appendHost (req : Req) (nextToken : Nat) : Option Req :=
  if req.inputIds.length + 1 ≤ req.maxDeviceLen then
    some { req with
      inputIds := req.inputIds ++ [nextToken] }
  else none

def maxChars (stops : List (List Char)) : Nat := (stops.map List.length).foldl max 0

variable (t : TokenTable)

/-- The first stop string, in list order, in the decoded tail of the generated tokens. -/
def matchStopStr (req : Req) : Option (List Char) :=
  let stops := req.samplingParams.stopStrs
  let promptLen := req.maxDeviceLen - req.outputLen
  if req.inputIds.length ≤ promptLen then none
  else
    let tailStart := max promptLen (req.inputIds.length - (maxChars stops + 1))
    let tail := t.decode (req.inputIds.drop tailStart)
    stops.find? fun s => decide (s <:+: tail)

/-- The token is an end-of-sequence token that the request does not ignore. -/
def hitEos (params : SamplingParams) (nextToken : Nat) : Bool :=
  !params.ignoreEos && decide (nextToken ∈ t.eosTokenIds)

/-- The message about a sampled token. `canDecode` is the request's remaining budget as the drain
reads it, `stopMatch` the stop string found in the output. -/
def tokenMsg (params : SamplingParams) (uid nextToken : Nat) (canDecode : Bool)
    (stopMatch : Option (List Char)) : DetokenizeMsg :=
  let hitLength := !canDecode
  let eos := hitEos t params nextToken
  let matchedStop := if eos = false ∧ params.stopStrs ≠ [] then stopMatch else none
  let finished := hitLength || eos || matchedStop.isSome
  { uid := uid
    nextToken := nextToken
    finished := finished
    finishReason :=
      if finished then some (if eos || matchedStop.isSome then .stop else .length) else none
    matchedStop := matchedStop
    stopStrs := if params.stopStrs = [] then none else some params.stopStrs }

/-- Drain one sampled token of a request: the request with the token, and the message about it. -/
def drainToken (req : Req) (nextToken : Nat) (canDecode : Bool) :
    Option (Req × DetokenizeMsg) :=
  (req.appendHost nextToken).map fun req =>
    (req, tokenMsg t req.samplingParams req.uid nextToken canDecode (matchStopStr t req))

/-- Drain sampled tokens, each with the budget test of its drain, until one ends the generation:
the messages sent. -/
def generate (t : TokenTable) : Req → List (Nat × Bool) → Option (List DetokenizeMsg)
  | _, [] => some []
  | req, (nextToken, canDecode) :: rest =>
    (drainToken t req nextToken canDecode).bind fun (req, msg) =>
      if msg.finished then some [msg] else (generate t req rest).map (msg :: ·)

/-- What the scheduler is for: the same run with a stop test that reads the whole decoded output
and names the first stop string, in list order, that it contains. -/
def idealGenerate (t : TokenTable) (params : SamplingParams) (uid : Nat) :
    List Nat → List (Nat × Bool) → List DetokenizeMsg
  | _, [] => []
  | generated, (nextToken, canDecode) :: rest =>
    let output := t.decode (generated ++ [nextToken])
    let msg := tokenMsg t params uid nextToken canDecode
      (params.stopStrs.find? fun s => decide (s <:+: output))
    if msg.finished then [msg] else msg :: idealGenerate t params uid (generated ++ [nextToken]) rest

/-- Every token that does not end the generation as an end-of-sequence token has text. -/
def Visible (params : SamplingParams) (tokens : List Nat) : Prop :=
  ∀ i ∈ tokens, hitEos t params i = false → t.text i ≠ []

theorem length_le_maxChars {stops : List (List Char)} {s : List Char} (mem : s ∈ stops) :
    s.length ≤ maxChars stops := by
  have general : ∀ (lengths : List Nat) (start n : Nat), n ∈ lengths ∨ n ≤ start →
      n ≤ lengths.foldl max start := by
    intro lengths
    induction lengths with
    | nil => simp
    | cons m lengths ih =>
      intro start n h
      simp only [List.mem_cons] at h
      refine ih (max start m) n ?_
      rcases h with (rfl | h) | h
      · exact .inr (le_max_right _ _)
      · exact .inl h
      · exact .inr (h.trans (le_max_left _ _))
  exact general _ 0 _ (.inl (List.mem_map_of_mem mem))

variable {t : TokenTable}

theorem length_le_decode {ids : List Nat} (visible : ∀ i ∈ ids, t.text i ≠ []) :
    ids.length ≤ (t.decode ids).length := by
  induction ids with
  | nil => simp
  | cons i ids ih =>
    have here := List.length_pos_iff.mpr (visible i (by simp))
    have rest := ih fun j hj => visible j (by simp [hj])
    simp only [TokenTable.decode, List.flatMap_cons, List.length_append, List.length_cons] at rest ⊢
    omega

/-- The tail is long enough: a stop string that the tokens before the last one do not contain is in
the whole output iff it is in the tail. -/
theorem isInfix_tail_iff {stops : List (List Char)} {s : List Char}
    {generated : List Nat} {last : Nat} (mem : s ∈ stops)
    (visible : ∀ i ∈ generated, t.text i ≠ []) (free : ¬ s <:+: t.decode generated) :
    s <:+: t.decode ((generated ++ [last]).drop
        ((generated ++ [last]).length - (maxChars stops + 1))) ↔
      s <:+: t.decode (generated ++ [last]) := by
  set cut := (generated ++ [last]).length - (maxChars stops + 1) with hcut
  simp only [List.length_append, List.length_singleton] at hcut
  have inside : cut ≤ generated.length := by omega
  have split : t.decode (generated ++ [last]) =
      t.decode (generated.take cut) ++ t.decode ((generated ++ [last]).drop cut) := by
    rw [List.drop_append_of_le_length inside, ← TokenTable.decode_append, ← List.append_assoc,
      List.take_append_drop]
  rw [split]
  constructor
  · intro h
    exact h.trans (List.suffix_append _ _).isInfix
  · intro h
    by_cases whole : cut = 0
    · simpa [whole] using h
    · rw [List.drop_append_of_le_length inside, TokenTable.decode_append] at h ⊢
      have free' : ¬ s <:+: t.decode (generated.take cut) ++ t.decode (generated.drop cut) := by
        rwa [← TokenTable.decode_append, List.take_append_drop]
      have many : (generated.drop cut).length ≤ (t.decode (generated.drop cut)).length :=
        length_le_decode fun i hi => visible i (List.mem_of_mem_drop hi)
      have fits := length_le_maxChars mem
      simp only [List.length_drop] at many
      exact isInfix_of_window free' (by omega) (by rwa [List.append_assoc])

theorem matchStopStr_eq {req : Req} {prompt generated : List Nat} {last : Nat}
    (ids : req.inputIds = prompt ++ (generated ++ [last]))
    (budget : req.maxDeviceLen - req.outputLen = prompt.length)
    (visible : ∀ i ∈ generated, t.text i ≠ [])
    (free : ∀ s ∈ req.samplingParams.stopStrs, ¬ s <:+: t.decode generated) :
    matchStopStr t req = req.samplingParams.stopStrs.find? fun s =>
      decide (s <:+: t.decode (generated ++ [last])) := by
  have longer : ¬ req.inputIds.length ≤ prompt.length := by
    rw [ids]
    simp
  have tail : req.inputIds.drop (max prompt.length
        (req.inputIds.length - (maxChars req.samplingParams.stopStrs + 1))) =
      (generated ++ [last]).drop
        ((generated ++ [last]).length - (maxChars req.samplingParams.stopStrs + 1)) := by
    rw [ids, List.drop_append, List.drop_eq_nil_of_le (le_max_left _ _), List.nil_append]
    congr 1
    simp only [List.length_append, List.length_singleton]
    omega
  simp only [matchStopStr, budget, if_neg longer, tail]
  exact List.find?_congr fun s mem => decide_eq_decide.mpr (isInfix_tail_iff mem visible (free s mem))

/-- A message that does not end the generation reports an output without stop strings. -/
theorem tokenMsg_unfinished {params : SamplingParams} {uid nextToken : Nat}
    {canDecode : Bool} {output : List Char}
    (going : (tokenMsg t params uid nextToken canDecode
      (params.stopStrs.find? fun s => decide (s <:+: output))).finished = false) :
    hitEos t params nextToken = false ∧ ∀ s ∈ params.stopStrs, ¬ s <:+: output := by
  simp only [tokenMsg, Bool.or_eq_false_iff] at going
  obtain ⟨⟨-, eos⟩, unmatched⟩ := going
  refine ⟨eos, fun s mem => ?_⟩
  have present : params.stopStrs ≠ [] := List.ne_nil_of_mem mem
  have nothing : params.stopStrs.find? (fun s => decide (s <:+: output)) = none := by
    simpa [eos, present] using unmatched
  simpa using List.find?_eq_none.mp nothing s mem

/-- The run of the scheduler from a point where it has found no stop string yet. -/
theorem generate_from {req : Req} {prompt generated : List Nat}
    {steps : List (Nat × Bool)} (ids : req.inputIds = prompt ++ generated)
    (budget : req.maxDeviceLen = prompt.length + req.outputLen)
    (room : generated.length + steps.length ≤ req.outputLen)
    (visible : ∀ i ∈ generated, t.text i ≠ [])
    (visible' : Visible t req.samplingParams (steps.map (·.1)))
    (free : ∀ s ∈ req.samplingParams.stopStrs, ¬ s <:+: t.decode generated) :
    generate t req steps =
      some (idealGenerate t req.samplingParams req.uid generated steps) := by
  induction steps generalizing req generated with
  | nil => rfl
  | cons step rest ih =>
    obtain ⟨nextToken, canDecode⟩ := step
    simp only [List.length_cons] at room
    set req' : Req := { req with
      inputIds := req.inputIds ++ [nextToken] } with hreq'
    have appended : req.appendHost nextToken = some req' := by
      rw [Req.appendHost, if_pos]
      rw [ids, List.length_append]
      omega
    have ids' : req'.inputIds = prompt ++ (generated ++ [nextToken]) := by
      simp [hreq', ids]
    have found : matchStopStr t req' = req.samplingParams.stopStrs.find? fun s =>
        decide (s <:+: t.decode (generated ++ [nextToken])) :=
      matchStopStr_eq ids' (by simp only [hreq']; omega) visible free
    have drained : drainToken t req nextToken canDecode =
        some (req', tokenMsg t req.samplingParams req.uid nextToken canDecode
          (req.samplingParams.stopStrs.find? fun s =>
            decide (s <:+: t.decode (generated ++ [nextToken])))) := by
      simp only [drainToken, appended, Option.map_some, found]
      rfl
    simp only [generate, drained, Option.bind_some, idealGenerate]
    split
    · rfl
    · rename_i going
      obtain ⟨eos, free'⟩ := tokenMsg_unfinished (Bool.not_eq_true _ ▸ going)
      have next : generate t req' rest = some
          (idealGenerate t req.samplingParams req.uid (generated ++ [nextToken]) rest) := by
        refine ih ids' budget ?_ ?_ ?_ free'
        · simp only [List.length_append, List.length_singleton]
          change _ ≤ req.outputLen
          omega
        · intro i mem
          rcases List.mem_append.mp mem with old | new
          · exact visible i old
          · obtain rfl := List.mem_singleton.mp new
            exact visible' i (by simp) eos
        · exact fun i mem => visible' i (List.mem_cons_of_mem _ mem)
      rw [next, Option.map_some]

/-- Where every token has text, the bounded tail of the scheduler serves as well as the whole
output. -/
theorem generate_eq_ideal {params : SamplingParams} {uid outputLen : Nat}
    {prompt : List Nat} {steps : List (Nat × Bool)} (room : steps.length ≤ outputLen)
    (visible : Visible t params (steps.map (·.1))) (nonempty : ∀ s ∈ params.stopStrs, s ≠ []) :
    generate t (Req.start uid prompt outputLen params) steps =
      some (idealGenerate t params uid [] steps) := by
  have ids : (Req.start uid prompt outputLen params).inputIds = prompt ++ [] := by
    simp [Req.start]
  refine generate_from ids rfl ?_ ?_ visible ?_
  · simpa [Req.start] using room
  · simp
  · intro s mem occurs
    exact nonempty s mem (by simpa using occurs)

end FreeSwarm.Scheduler.Finish
