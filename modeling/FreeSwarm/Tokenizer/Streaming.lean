import Mathlib.Order.MinMax
import FreeSwarm.Tokenizer.Calls

/-!
# What one client receives

The text of a request is computed from its own messages. `Streaming` is the invariant of that
computation: the client has a prefix of the decoded text, and no stop string can start inside that
prefix any more.
-/

namespace FreeSwarm.Tokenizer

open FreeSwarm.Foundation

/-! ## The stream of one request -/

/-- One message as its own request sees it. -/
def receive (t : TokenTable) (status : Option DecodeStatus) (msg : DetokenizeMsg) :
    Option DecodeStatus × List Char :=
  let s := (status.getD DecodeStatus.fresh).append t msg
  let (s', increment) := s.emit msg (t.decode s.readIds.1) (t.decode s.readIds.2)
  (if msg.finished then none else some s', increment)

/-- The messages of a request in order, and the text they give together. -/
def receiveAll (t : TokenTable) (status : Option DecodeStatus) :
    List DetokenizeMsg → Option DecodeStatus × List Char
  | [] => (status, [])
  | msg :: msgs =>
    let (status₁, increment) := receive t status msg
    let (status₂, rest) := receiveAll t status₁ msgs
    (status₂, increment ++ rest)

variable (t : TokenTable)

@[simp] theorem receiveAll_cons (status : Option DecodeStatus)
    (msg : DetokenizeMsg) (msgs : List DetokenizeMsg) :
    receiveAll t status (msg :: msgs) =
      ((receiveAll t (receive t status msg).1 msgs).1,
        (receive t status msg).2 ++ (receiveAll t (receive t status msg).1 msgs).2) := rfl

theorem receiveAll_eq (status : Option DecodeStatus)
    (msgs : List DetokenizeMsg) :
    receiveAll t status msgs = receiveAllWith t t.decode status msgs := by
  induction msgs generalizing status with
  | nil => rfl
  | cons msg msgs ih =>
    rw [receiveAll_cons, ih]
    rfl

theorem DetokenizeManager.serve_eq (m : DetokenizeManager) {calls : List Call} {uid : Nat}
    (streams : ∀ call ∈ calls, Streams uid call) :
    m.serve calls = m.serveWith m.tokenizer.decode calls := by
  induction calls generalizing m with
  | nil => rfl
  | cons call calls ih =>
    have later : ∀ call' ∈ calls, Streams uid call' := fun call' mem => streams call' (by simp [mem])
    cases call with
    | discard other => exact ih (m.discard other) later
    | detokenize msgs =>
      have distinct : Streams uid (.detokenize msgs) := streams _ (by simp)
      obtain ⟨m₁, called, same, -⟩ := detokenizeWith_spec (m := m) m.tokenizer.decode distinct
      change (m.detokenizeWith m.tokenizer.decode msgs).bind _ = _
      simp only [serveWith, called, Option.bind_some, ih m₁ later, same]

theorem serve_clientText {m : DetokenizeManager} {calls : List Call} {uid : Nat}
    (streams : ∀ call ∈ calls, Streams uid call) :
    ∃ m' replies, m.serve calls = some (m', replies) ∧
      clientText uid replies =
        (receiveAll m.tokenizer (m.decodeMap uid) (calls.flatMap (messagesOf uid))).2 := by
  obtain ⟨m', replies, done, -, text⟩ := serveWith_spec (m := m) m.tokenizer.decode streams
  exact ⟨m', replies, (m.serve_eq streams).trans done, by rw [receiveAll_eq, text]⟩

/-! ## The invariant of a stream -/

theorem isPrefix_findPrintableText (text : List Char) : findPrintableText text <+: text := by
  unfold findPrintableText
  split
  · exact List.nil_prefix
  · split_ifs
    · exact List.prefix_rfl
    · exact List.prefix_rfl
    · exact List.dropLast_prefix text
    · exact List.rdropWhile_prefix _ _

theorem le_longestHold {text stop : List Char} {i n : Nat} (bound : i ≤ n) (positive : 0 < i)
    (ends : stop.take i <:+ text) : i ≤ longestHold text stop n := by
  induction n with
  | zero => omega
  | succ n ih =>
    simp only [longestHold]
    split
    · exact bound
    · rename_i shorter
      have below : i ≠ n + 1 := fun eq => shorter (eq ▸ ends)
      exact ih (by omega)

theorem longestHold_le_stopPrefixHoldback (text : List Char) {stop : List Char}
    {stops : List (List Char)} (mem : stop ∈ stops) :
    longestHold text stop (min (stop.length - 1) text.length) ≤ stopPrefixHoldback text stops := by
  have general : ∀ (stops : List (List Char)) (start n : Nat),
      (n ≤ start ∨ ∃ stop ∈ stops,
        n ≤ longestHold text stop (min (stop.length - 1) text.length)) →
      n ≤ stops.foldl (fun hold stop =>
        max hold (longestHold text stop (min (stop.length - 1) text.length))) start := by
    intro stops
    induction stops with
    | nil => simp
    | cons first stops ih =>
      intro start n h
      refine ih _ n ?_
      rcases h with h | ⟨stop, mem, h⟩
      · exact .inl (h.trans (le_max_left _ _))
      · rcases List.mem_cons.mp mem with rfl | mem
        · exact .inl (h.trans (le_max_right _ _))
        · exact .inr ⟨stop, mem, h⟩
  exact general stops 0 _ (.inr ⟨stop, mem, le_rfl⟩)

/-- No stop string can start in the part of a text that is not held back, however the text goes
on. -/
theorem not_prefix_drop_released {text stop ext : List Char} {stops : List (List Char)} {d : Nat}
    (mem : stop ∈ stops) (free : ¬ stop <:+: text)
    (released : d < text.length - stopPrefixHoldback text stops) :
    ¬ stop <+: (text ++ ext).drop d := by
  intro occurs
  by_cases fits : d + stop.length ≤ text.length
  · exact free (isInfix_of_prefix_drop_append occurs fits)
  · have ends := take_suffix_of_overhang occurs (by omega) (by omega)
    have hold : text.length - d ≤ longestHold text stop (min (stop.length - 1) text.length) :=
      le_longestHold (by omega) (by omega) ends
    have most := longestHold_le_stopPrefixHoldback text mem
    omega

/-- The client has the first `sentOffset` characters of the decoded text, and no stop string
starts among them, however the text goes on. -/
structure Streaming (t : TokenTable) (stops : List (List Char)) (s : DecodeStatus)
    (sent : List Char) : Prop where
  order : s.surrOffset ≤ s.readOffset
  received : s.readOffset ≤ s.decodedIds.length
  decoded : s.decodedStr = t.decode (s.decodedIds.take s.readOffset)
  bounded : s.sentOffset ≤ (t.decode s.decodedIds).length
  prefixSent : sent = (t.decode s.decodedIds).take s.sentOffset
  safe : ∀ stop ∈ stops, ∀ d < s.sentOffset, ∀ ext,
    ¬ stop <+: (t.decode s.decodedIds ++ ext).drop d

theorem Streaming.fresh (stops : List (List Char)) :
    Streaming t stops DecodeStatus.fresh [] :=
  { order := le_rfl
    received := le_rfl
    decoded := rfl
    bounded := le_rfl
    prefixSent := rfl
    safe := fun _ _ _ below => absurd below (Nat.not_lt_zero _) }

section
variable {t : TokenTable} {stops : List (List Char)} {s : DecodeStatus} {sent : List Char}

/-- What the two decoded texts of a message differ by is the text of the unread tokens. -/
theorem drop_readIds (order : s.surrOffset ≤ s.readOffset)
    (received : s.readOffset ≤ s.decodedIds.length) :
    (t.decode s.readIds.1).drop (t.decode s.readIds.2).length =
      t.decode (s.decodedIds.drop s.readOffset) := by
  have split : s.readIds.1 = s.readIds.2 ++ s.decodedIds.drop s.readOffset := by
    have inside : s.surrOffset ≤ (s.decodedIds.take s.readOffset).length := by
      rw [List.length_take, Nat.min_eq_left received]
      exact order
    simp only [DecodeStatus.readIds]
    rw [← List.drop_append_of_le_length inside, List.take_append_drop]
  rw [split, TokenTable.decode_append, List.drop_left]

/-- Reading the unread tokens keeps what the status says of the read ones. The text so far is a
prefix of the whole text, and all of it unless that ends inside a character. -/
theorem advance_spec (order : s.surrOffset ≤ s.readOffset)
    (received : s.readOffset ≤ s.decodedIds.length)
    (decoded : s.decodedStr = t.decode (s.decodedIds.take s.readOffset)) :
    let r := s.advance (t.decode s.readIds.1) (t.decode s.readIds.2)
    r.1.surrOffset ≤ r.1.readOffset ∧ r.1.readOffset ≤ r.1.decodedIds.length ∧
      r.1.decodedStr = t.decode (r.1.decodedIds.take r.1.readOffset) ∧
      r.1.decodedIds = s.decodedIds ∧ r.1.sentOffset = s.sentOffset ∧
      r.2 <+: t.decode s.decodedIds ∧
      ((t.decode s.decodedIds).getLast? ≠ some replacementChar →
        r.2 = t.decode s.decodedIds) := by
  have whole : s.decodedStr ++ t.decode (s.decodedIds.drop s.readOffset) =
      t.decode s.decodedIds := by
    rw [decoded, ← TokenTable.decode_append, List.take_append_drop]
  simp only [DecodeStatus.advance, drop_readIds order received]
  set newText := t.decode (s.decodedIds.drop s.readOffset) with hnew
  by_cases readable : 0 < newText.length ∧ newText.getLast? ≠ some replacementChar
  · simp only [if_pos readable, whole]
    simp [received]
  · simp only [if_neg readable]
    refine ⟨order, received, decoded, trivial, trivial, ?_, fun clean => ?_⟩
    · rw [← whole]
      exact (List.prefix_append_right_inj _).mpr (isPrefix_findPrintableText newText)
    · have empty : newText = [] := by
        by_contra present
        refine readable ⟨List.length_pos_iff.mpr present, ?_⟩
        rwa [← List.getLast?_append_of_ne_nil s.decodedStr present, whole]
      rw [← whole, empty]
      rfl

theorem emitEnd_le (msg : DetokenizeMsg) (output : List Char) :
    emitEnd msg output ≤ output.length := by
  unfold emitEnd
  split
  · split
    · split
      · exact le_rfl
      · rename_i stop _ _
        cases found : findSub stop output with
        | none => exact le_rfl
        | some cut => exact findSub_le found
    · exact le_rfl
  · split
    · exact Nat.sub_le _ _
    · exact le_rfl

/-- Sending the next piece after a prefix of a text gives a longer prefix of it. -/
theorem take_append_piece {text output : List Char} {sentOffset stop : Nat}
    (sub : output <+: text) (inside : stop ≤ output.length) :
    text.take sentOffset ++
        (if sentOffset < stop then (output.take stop).drop sentOffset else []) =
      text.take (max sentOffset stop) := by
  split
  · rename_i more
    obtain ⟨rest, rfl⟩ := sub
    rw [max_eq_right more.le, List.take_append_of_le_length inside,
      List.take_append_of_le_length (by omega), List.drop_take]
    conv_rhs => rw [show stop = sentOffset + (stop - sentOffset) by omega, List.take_add]
  · rename_i less
    rw [max_eq_left (by omega), List.append_nil]

/-- A message sends the text up to where its release ends, if that is further than before. -/
theorem emit_increment {m : DetokenizeMsg} {output : List Char} {s' : DecodeStatus}
    {readStr surrStr text : List Char} (advanced : s.advance readStr surrStr = (s', output))
    (sub : output <+: text) (same : s'.sentOffset = s.sentOffset) :
    text.take s.sentOffset ++ (s.emit m readStr surrStr).2 =
        text.take (max s.sentOffset (emitEnd m output)) ∧
      (s.emit m readStr surrStr).1 =
        { s' with
          sentOffset := max s.sentOffset (emitEnd m output) } := by
  simp only [DecodeStatus.emit, advanced, same]
  exact ⟨take_append_piece sub (emitEnd_le m output), trivial⟩

/-- Appending a token leaves everything but the token list alone, and the text only grows. -/
theorem append_spec (msg : DetokenizeMsg) :
    (s.append t msg).readOffset = s.readOffset ∧ (s.append t msg).surrOffset = s.surrOffset ∧
      (s.append t msg).decodedStr = s.decodedStr ∧ (s.append t msg).sentOffset = s.sentOffset ∧
      s.decodedIds <+: (s.append t msg).decodedIds := by
  unfold DecodeStatus.append
  split <;> simp

/-- What a message adds to a stream: the client then has the text up to where the release ends, and
the status says so. -/
theorem Streaming.receive_spec (h : Streaming t stops s sent) (msg : DetokenizeMsg) :
    let text := t.decode (s.append t msg).decodedIds
    ∃ output s₂, output <+: text ∧ (text.getLast? ≠ some replacementChar → output = text) ∧
      sent ++ (receive t (some s) msg).2 =
        text.take (max s.sentOffset (emitEnd msg output)) ∧
      (receive t (some s) msg).1 = (if msg.finished then none else some s₂) ∧
      s₂.sentOffset = max s.sentOffset (emitEnd msg output) ∧
      s₂.decodedIds = (s.append t msg).decodedIds ∧ s₂.surrOffset ≤ s₂.readOffset ∧
      s₂.readOffset ≤ s₂.decodedIds.length ∧
      s₂.decodedStr = t.decode (s₂.decodedIds.take s₂.readOffset) := by
  obtain ⟨hread, hsurr, hstr, hsent, ids⟩ := append_spec (t := t) (s := s) msg
  set s₁ := s.append t msg with hs₁
  have order₁ : s₁.surrOffset ≤ s₁.readOffset := by
    rw [hread, hsurr]
    exact h.order
  have received₁ : s₁.readOffset ≤ s₁.decodedIds.length := by
    rw [hread]
    exact h.received.trans ids.length_le
  have decoded₁ : s₁.decodedStr = t.decode (s₁.decodedIds.take s₁.readOffset) := by
    obtain ⟨rest, hrest⟩ := ids
    rw [hstr, hread, ← hrest, List.take_append_of_le_length h.received]
    exact h.decoded
  have grown : t.decode s.decodedIds <+: t.decode s₁.decodedIds := by
    obtain ⟨rest, hrest⟩ := ids
    rw [← hrest, TokenTable.decode_append]
    exact List.prefix_append _ _
  have same : sent = (t.decode s₁.decodedIds).take s₁.sentOffset := by
    obtain ⟨rest, hrest⟩ := grown
    rw [← hrest, hsent, List.take_append_of_le_length h.bounded]
    exact h.prefixSent
  obtain ⟨order₂, received₂, decoded₂, ids₂, sent₂, sub, clean⟩ :=
    advance_spec order₁ received₁ decoded₁
  set r := s₁.advance (t.decode s₁.readIds.1) (t.decode s₁.readIds.2) with hr
  have advanced : s₁.advance (t.decode s₁.readIds.1) (t.decode s₁.readIds.2) = (r.1, r.2) := rfl
  obtain ⟨increment, status⟩ := emit_increment (m := msg) advanced sub sent₂
  refine ⟨r.2, { r.1 with
      sentOffset := max s₁.sentOffset (emitEnd msg r.2) }, sub, clean, ?_, ?_, ?_, ids₂, order₂,
    received₂, decoded₂⟩
  · rw [same, ← hsent]
    exact increment
  · simp only [receive, Option.getD_some, ← hs₁, status]
  · rw [hsent]

/-- A token that does not end the generation keeps the invariant, when the text with it holds no
stop string. -/
theorem Streaming.step {msg : DetokenizeMsg} (h : Streaming t stops s sent)
    (going : msg.finished = false)
    (told : msg.stopStrs = if stops = [] then none else some stops)
    (free : ∀ stop ∈ stops, ¬ stop <:+: t.decode (s.decodedIds ++ [msg.nextToken])) :
    ∃ s', (receive t (some s) msg).1 = some s' ∧
      s'.decodedIds = s.decodedIds ++ [msg.nextToken] ∧
      Streaming t stops s' (sent ++ (receive t (some s) msg).2) := by
  have ids : (s.append t msg).decodedIds = s.decodedIds ++ [msg.nextToken] := by
    simp [DecodeStatus.append, going]
  obtain ⟨output, s₂, sub, -, increment, status, offset, ids₂, order, received, decoded⟩ :=
    h.receive_spec msg
  rw [ids] at sub increment ids₂
  have inside : emitEnd msg output ≤ (t.decode (s.decodedIds ++ [msg.nextToken])).length :=
    (emitEnd_le msg output).trans sub.length_le
  have old : s.sentOffset ≤ (t.decode (s.decodedIds ++ [msg.nextToken])).length := by
    rw [TokenTable.decode_append, List.length_append]
    exact h.bounded.trans (Nat.le_add_right _ _)
  refine ⟨s₂, by simp [status, going], ids₂, order, received, decoded, ?_, ?_, ?_⟩
  · rw [offset, ids₂]
    exact max_le old inside
  · rw [increment, offset, ids₂]
  · intro stop mem d below ext
    rw [ids₂]
    rcases lt_max_iff.mp (offset ▸ below) with earlier | later
    · rw [TokenTable.decode_append, List.append_assoc]
      exact h.safe stop mem d earlier _
    · have present : stops ≠ [] := List.ne_nil_of_mem mem
      obtain ⟨rest, hrest⟩ := sub
      have released : d < output.length - stopPrefixHoldback output stops := by
        simpa [emitEnd, going, told, present] using later
      rw [← hrest, List.append_assoc]
      refine not_prefix_drop_released mem (fun occurs => free stop mem ?_) released
      exact occurs.trans (hrest ▸ (List.prefix_append _ _).isInfix)

def clip (matchedStop : Option (List Char)) (text : List Char) : List Char :=
  match matchedStop with
  | some stop => before stop text
  | none => text

/-- The token that ends the generation completes the client's text: all of it up to the first
occurrence of the matched stop string. -/
theorem Streaming.finish {msg : DetokenizeMsg} (h : Streaming t stops s sent)
    (done : msg.finished) (named : ∀ stop, msg.matchedStop = some stop → stop ∈ stops ∧ stop ≠ [])
    (clean : (t.decode (s.append t msg).decodedIds).getLast? ≠ some replacementChar) :
    sent ++ (receive t (some s) msg).2 =
      clip msg.matchedStop (t.decode (s.append t msg).decodedIds) := by
  obtain ⟨output, s₂, -, whole, increment, -⟩ := h.receive_spec msg
  obtain rfl := whole clean
  obtain ⟨-, -, -, -, rest, hrest⟩ := append_spec (t := t) (s := s) msg
  rw [increment]
  set text := t.decode (s.append t msg).decodedIds with htext
  have grown : text = t.decode s.decodedIds ++ t.decode rest := by
    rw [htext, ← hrest, TokenTable.decode_append]
  have old : s.sentOffset ≤ text.length := by
    rw [grown, List.length_append]
    exact h.bounded.trans (Nat.le_add_right _ _)
  cases matched : msg.matchedStop with
  | none => simp [emitEnd, done, matched, clip, old]
  | some stop =>
    obtain ⟨mem, nonempty⟩ := named stop matched
    cases found : findSub stop text with
    | none => simp [emitEnd, done, matched, clip, before, nonempty, found, old]
    | some cut =>
      have behind : s.sentOffset ≤ cut := by
        by_contra ahead
        refine h.safe stop mem cut (by omega) (t.decode rest) ?_
        rw [← grown]
        exact findSub_occurs found
      simp [emitEnd, done, matched, clip, before, nonempty, found, behind]

end

end FreeSwarm.Tokenizer
