import FreeSwarm.Scheduler.Finish
import FreeSwarm.Tokenizer.Streaming

/-!
# Stop strings from the scheduler to the client

The scheduler looks for stop strings in a bounded tail of tokens, the detokenizer trims and holds
back characters. Put together, a client receives the decoded output up to the stop string the
scheduler names, whatever other requests share the calls.
-/

namespace FreeSwarm.Scheduler.Finish

open FreeSwarm.Foundation FreeSwarm.Tokenizer

/-- The generated tokens that are text: a final end-of-sequence token is not. -/
def shownIds (t : TokenTable) (msgs : List DetokenizeMsg) : List Nat :=
  (msgs.filter fun msg => !(msg.finished && decide (msg.nextToken ∈ t.eosTokenIds))).map
    (·.nextToken)

/-- The stop string that ended a generation. -/
def namedStop (msgs : List DetokenizeMsg) : Option (List Char) :=
  msgs.getLast?.bind (·.matchedStop)

/-- The generation came to its end. -/
def Ended (msgs : List DetokenizeMsg) : Prop :=
  ∃ last, msgs.getLast? = some last ∧ last.finished = true

variable {t : TokenTable} {params : SamplingParams} {uid : Nat}

theorem tokenMsg_matchedStop {nextToken : Nat} {canDecode : Bool} {output stop : List Char}
    (named : (tokenMsg t params uid nextToken canDecode
      (params.stopStrs.find? fun s => decide (s <:+: output))).matchedStop = some stop) :
    stop ∈ params.stopStrs := by
  simp only [tokenMsg] at named
  split at named
  · exact List.mem_of_find?_eq_some named
  · cases named

theorem namedStop_mem {generated : List Nat} {steps : List (Nat × Bool)} {stop : List Char}
    (named : namedStop (idealGenerate t params uid generated steps) = some stop) :
    stop ∈ params.stopStrs := by
  induction steps generalizing generated with
  | nil => simp [namedStop, idealGenerate] at named
  | cons step rest ih =>
    obtain ⟨nextToken, canDecode⟩ := step
    simp only [idealGenerate] at named
    split at named
    · exact tokenMsg_matchedStop (by simpa [namedStop] using named)
    · cases later : idealGenerate t params uid (generated ++ [nextToken]) rest with
      | nil =>
        rw [later] at named
        exact tokenMsg_matchedStop (by simpa [namedStop] using named)
      | cons msg msgs =>
        rw [later] at named
        have tail := @ih (generated ++ [nextToken])
        rw [later] at tail
        exact tail (by simpa [namedStop] using named)

/-- The client's text follows the generation: what is sent so far, completed by the remaining
messages. -/
theorem receiveAll_ideal {s : DecodeStatus} {sent : List Char} {generated : List Nat}
    {steps : List (Nat × Bool)} (h : Streaming t params.stopStrs s sent)
    (ids : s.decodedIds = generated) (nonempty : ∀ stop ∈ params.stopStrs, stop ≠ [])
    (ended : Ended (idealGenerate t params uid generated steps))
    (clean : (t.decode (generated ++ shownIds t (idealGenerate t params uid generated steps))).getLast?
      ≠ some replacementChar) :
    sent ++ (receiveAll t (some s) (idealGenerate t params uid generated steps)).2 =
      clip (namedStop (idealGenerate t params uid generated steps))
        (t.decode (generated ++ shownIds t (idealGenerate t params uid generated steps))) := by
  induction steps generalizing s sent generated with
  | nil =>
    obtain ⟨last, none, -⟩ := ended
    simp [idealGenerate] at none
  | cons step rest ih =>
    obtain ⟨nextToken, canDecode⟩ := step
    set msg := tokenMsg t params uid nextToken canDecode
      (params.stopStrs.find? fun s => decide (s <:+: t.decode (generated ++ [nextToken]))) with hmsg
    have token : msg.nextToken = nextToken := rfl
    simp only [idealGenerate, ← hmsg] at ended clean ⊢
    cases done : msg.finished with
    | true =>
      simp only [done, if_true] at ended clean ⊢
      have appended : (s.append t msg).decodedIds = generated ++ shownIds t [msg] := by
        by_cases eos : msg.nextToken ∈ t.eosTokenIds
        · simp [DecodeStatus.append, shownIds, done, eos, ids]
        · simp [DecodeStatus.append, shownIds, eos, ids]
      rw [← appended] at clean ⊢
      have final := h.finish done
        (fun stop named => ⟨tokenMsg_matchedStop named, nonempty stop (tokenMsg_matchedStop named)⟩)
        clean
      simpa [receiveAll, namedStop] using final
    | false =>
      simp only [done, Bool.false_eq_true, if_false] at ended clean ⊢
      obtain ⟨-, free⟩ := tokenMsg_unfinished done
      obtain ⟨s', status, ids', h'⟩ := h.step done rfl (by rw [ids]; exact free)
      have tail := @ih s' _ (generated ++ [nextToken]) h' (by rw [ids', ids, token])
      generalize idealGenerate t params uid (generated ++ [nextToken]) rest = later
        at tail ended clean ⊢
      obtain ⟨last, hlast, finished⟩ := ended
      have some_later : later ≠ [] := by
        rintro rfl
        obtain rfl : msg = last := by simpa using hlast
        simp [done] at finished
      have getLast : (msg :: later).getLast? = later.getLast? :=
        List.getLast?_cons_of_ne_nil some_later
      have shown : generated ++ shownIds t (msg :: later) =
          (generated ++ [nextToken]) ++ shownIds t later := by
        simp only [shownIds, List.filter_cons, done, Bool.false_and, Bool.not_false, if_true,
          List.map_cons, token, List.append_assoc, List.singleton_append]
      rw [shown] at clean ⊢
      rw [receiveAll_cons, status, ← List.append_assoc,
        tail ⟨last, getLast ▸ hlast, finished⟩ clean, namedStop, namedStop, getLast]

/-- A generation whose tokens have text is ended by the bounded tail test exactly as by a test of
the whole output, and its client receives the decoded output up to the first occurrence of the stop
string that ended it, unless that output ends inside a character. -/
theorem client_receives_output_before_stop {outputLen : Nat} {prompt : List Nat}
    {steps : List (Nat × Bool)} (room : steps.length ≤ outputLen)
    (visible : Visible t params (steps.map (·.1)))
    (nonempty : ∀ stop ∈ params.stopStrs, stop ≠ []) :
    ∃ msgs, generate t (Req.start uid prompt outputLen params) steps = some msgs ∧
      msgs = idealGenerate t params uid [] steps ∧
      ∀ (m : DetokenizeManager) (calls : List Call), m.tokenizer = t → m.decodeMap uid = none →
        (∀ call ∈ calls, Streams uid call) → calls.flatMap (messagesOf uid) = msgs → Ended msgs →
        (t.decode (shownIds t msgs)).getLast? ≠ some replacementChar →
        ∃ m' replies, m.serve calls = some (m', replies) ∧
          clientText uid replies = clip (namedStop msgs) (t.decode (shownIds t msgs)) ∧
          ∀ stop, namedStop msgs = some stop → ¬ stop <:+: clientText uid replies := by
  refine ⟨_, generate_eq_ideal room visible nonempty, rfl, ?_⟩
  intro m calls table unknown streams own ended clean
  obtain ⟨m', replies, served, text⟩ := serve_clientText (m := m) streams
  have start : (receiveAll t none (idealGenerate t params uid [] steps)).2 =
      (receiveAll t (some DecodeStatus.fresh) (idealGenerate t params uid [] steps)).2 := by
    cases idealGenerate t params uid [] steps with
    | nil => rfl
    | cons msg msgs => rfl
  have empty : DecodeStatus.fresh.decodedIds = [] := rfl
  have whole := receiveAll_ideal (Streaming.fresh t params.stopStrs) empty nonempty ended clean
  rw [List.nil_append, List.nil_append] at whole
  refine ⟨m', replies, served, ?_, ?_⟩
  · rw [text, table, unknown, own, start, whole]
  · intro stop named
    rw [text, table, unknown, own, start, whole, named]
    exact not_infix_before (nonempty stop (namedStop_mem named))

/-- A table of five texts: none, `a`, `b`, `ab`, and `ax` followed by part of a character. -/
def smallTable : TokenTable :=
  { text := fun i =>
      if i = 0 then [] else if i = 1 then ['a'] else if i = 2 then ['b']
      else if i = 3 then ['a', 'b'] else ['a', 'x', replacementChar]
    eosTokenIds := [9] }

def smallManager : DetokenizeManager :=
  { tokenizer := smallTable, decodeMap := fun _ => none }

def smallMessages (stops : List (List Char)) (tokens : List Nat) : Option (List DetokenizeMsg) :=
  generate smallTable (Req.start 7 [0] 8 { ignoreEos := false, stopStrs := stops })
    (tokens.map fun i => (i, true))

/-- What the client of these messages receives, one call for each. -/
def smallClient (stops : List (List Char)) (tokens : List Nat) : Option (List Char) :=
  (smallMessages stops tokens).bind fun msgs =>
    (smallManager.serve (msgs.map fun msg => .detokenize [msg])).map fun r => clientText 7 r.2

/-- With the stop string `ab`, the client of the output `aab` receives `a`. -/
theorem client_receives_output_before_stop_small :
    ∃ msgs, smallMessages [['a', 'b']] [1, 1, 2] = some msgs ∧
      ∃ m' replies,
        smallManager.serve (msgs.map fun msg => .detokenize [msg]) = some (m', replies) ∧
        clientText 7 replies = ['a'] := by
  obtain ⟨msgs, generated, rfl, client⟩ := @client_receives_output_before_stop smallTable
    { ignoreEos := false, stopStrs := [['a', 'b']] } 7 8 [0] [(1, true), (1, true), (2, true)]
    (by decide) (by unfold Visible; decide) (by decide)
  refine ⟨_, generated, ?_⟩
  obtain ⟨m', replies, served, text, -⟩ := client smallManager
    ((idealGenerate smallTable { ignoreEos := false, stopStrs := [['a', 'b']] } 7 []
      [(1, true), (1, true), (2, true)]).map fun msg => .detokenize [msg]) rfl rfl
    (by intro call mem
        obtain ⟨msg, -, rfl⟩ := List.mem_map.mp mem
        simp [Streams])
    (by decide) ⟨_, rfl, by decide⟩ (by decide)
  exact ⟨m', replies, served, text⟩

/-- Three ways out of the conditions. Tokens without text push the start of a stop string out of
the tail, and the generation goes on past it. Of two stop strings completed by one token the first
in list order is cut at, not the earlier one in the text. An output that ends inside a character
loses its last piece. -/
theorem stop_strings_outside_conditions :
    ((smallMessages [['a', 'b']] [1, 0, 0, 0, 2]).map (·.map (·.finished)) =
        some [false, false, false, false, false] ∧
      ['a', 'b'] <:+: smallTable.decode [1, 0, 0, 0, 2]) ∧
    (smallClient [['b'], ['a']] [3] = some ['a'] ∧
      before ['a'] (smallTable.decode [3]) = []) ∧
    (smallClient [['x']] [4] = some [] ∧
      before ['x'] (smallTable.decode [4]) = ['a']) := by
  decide

end FreeSwarm.Scheduler.Finish
