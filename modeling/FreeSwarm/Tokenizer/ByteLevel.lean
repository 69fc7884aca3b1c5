import FreeSwarm.Foundation.Utf8
import FreeSwarm.Tokenizer.Streaming

/-!
# Byte-level tokenizers

The token of a byte-level tokenizer stands for bytes, and a token sequence for the lossy decoding
of its bytes in a row, so that a character may be spread over tokens. `ByteStream` is the
invariant of a request's stream for such a tokenizer: what is read ends between characters, and
the client has only text that no later token changes.
-/

namespace FreeSwarm.Tokenizer

open FreeSwarm.Foundation

structure ByteTokenizer where
  bytes : Nat → List UInt8
  eosTokenIds : List Nat

namespace ByteTokenizer

variable (b : ByteTokenizer) (ids : List Nat)

def bytesOf : List Nat :=
  (ids.flatMap b.bytes).map UInt8.toNat

def decode : List Char := Utf8.decode (b.bytesOf ids)

def table : TokenTable :=
  { text := fun id => b.decode [id], eosTokenIds := b.eosTokenIds }

def textIds (msgs : List DetokenizeMsg) : List Nat :=
  (msgs.filter fun msg => !(msg.finished && decide (msg.nextToken ∈ b.eosTokenIds))).map
    (·.nextToken)

def settled : List Char := Utf8.settled (b.bytesOf ids)

/-- A token sequence that ends between characters. -/
def Closed : Prop := (Utf8.run none (b.bytesOf ids)).2 = none

variable (b : ByteTokenizer)

theorem bytesOf_append (ids ids' : List Nat) :
    b.bytesOf (ids ++ ids') = b.bytesOf ids ++ b.bytesOf ids' := by
  simp [bytesOf]

theorem Closed.decode_append {ids : List Nat} (closed : b.Closed ids) (ids' : List Nat) :
    b.decode (ids ++ ids') = b.decode ids ++ b.decode ids' := by
  rw [decode, bytesOf_append, Utf8.decode_append_of_closed closed]
  rfl

theorem closed_of_clean {ids : List Nat} (clean : (b.decode ids).getLast? ≠ some replacementChar) :
    b.Closed ids :=
  Utf8.closed_of_getLast?_ne clean

theorem settled_append (ids ids' : List Nat) : b.settled ids <+: b.settled (ids ++ ids') := by
  rw [settled, settled, bytesOf_append]
  exact Utf8.settled_append _ _

theorem settled_isPrefix (ids : List Nat) : b.settled ids <+: b.decode ids :=
  Utf8.settled_isPrefix _

theorem settled_eq_decode_iff (ids : List Nat) :
    b.settled ids = b.decode ids ↔ (b.decode ids).getLast? ≠ some replacementChar :=
  Utf8.settled_eq_decode_iff _

end ByteTokenizer

/-! ## The stream of one request -/

theorem length_findPrintableText_lt {text : List Char}
    (ends : text.getLast? = some replacementChar) :
    (findPrintableText text).length < text.length := by
  obtain ⟨front, rfl⟩ : ∃ front, text = front ++ [replacementChar] :=
    ⟨text.dropLast, (List.dropLast_append_getLast? _ ends).symm⟩
  have plain : ¬ isChineseChar replacementChar.toNat = true := by decide
  simp only [findPrintableText, List.reverse_append, List.reverse_cons, List.reverse_nil,
    List.nil_append, List.cons_append, if_neg plain, if_neg (by decide : ¬ replacementChar = '\n')]
  split_ifs
  · simp
  · rw [List.rdropWhile_concat_pos _ _ _ (by decide)]
    have short := (List.rdropWhile_prefix (· ≠ ' ') front).length_le
    rw [List.length_append, List.length_singleton]
    omega

/-- The client has settled text, and what is read ends between characters. -/
structure ByteStream (b : ByteTokenizer) (s : DecodeStatus) (sent : List Char) : Prop where
  order : s.surrOffset ≤ s.readOffset
  received : s.readOffset ≤ s.decodedIds.length
  decoded : s.decodedStr = b.decode (s.decodedIds.take s.readOffset)
  clean : s.decodedStr.getLast? ≠ some replacementChar
  context : b.Closed ((s.decodedIds.take s.readOffset).drop s.surrOffset)
  prefixSent : sent = (b.settled s.decodedIds).take s.sentOffset
  bounded : s.sentOffset ≤ (b.settled s.decodedIds).length

section
variable {b : ByteTokenizer} {s : DecodeStatus} {sent : List Char}

theorem ByteStream.fresh (b : ByteTokenizer) : ByteStream b DecodeStatus.fresh [] :=
  { order := le_rfl
    received := le_rfl
    decoded := rfl
    clean := by simp [DecodeStatus.fresh]
    context := rfl
    prefixSent := rfl
    bounded := Nat.zero_le _ }

theorem ByteStream.append (h : ByteStream b s sent) (msg : DetokenizeMsg) :
    ByteStream b (s.append b.table msg) sent := by
  obtain ⟨hread, hsurr, hstr, hsent, ids⟩ := append_spec (t := b.table) (s := s) msg
  set s₁ := s.append b.table msg
  obtain ⟨rest, hrest⟩ := ids
  have taken : s₁.decodedIds.take s.readOffset = s.decodedIds.take s.readOffset := by
    rw [← hrest, List.take_append_of_le_length h.received]
  obtain ⟨more, hmore⟩ := b.settled_append s.decodedIds rest
  rw [hrest] at hmore
  exact
    { order := by rw [hread, hsurr]; exact h.order
      received := by
        rw [hread, ← hrest, List.length_append]
        exact h.received.trans (Nat.le_add_right _ _)
      decoded := by rw [hstr, hread, taken]; exact h.decoded
      clean := by rw [hstr]; exact h.clean
      context := by rw [hread, hsurr, taken]; exact h.context
      prefixSent := by
        rw [hsent, ← hmore, List.take_append_of_le_length h.bounded]
        exact h.prefixSent
      bounded := by
        rw [hsent, ← hmore, List.length_append]
        exact h.bounded.trans (Nat.le_add_right _ _) }

/-- What the two decoded texts of a message differ by is the text of the unread tokens. -/
theorem ByteStream.drop_readIds (h : ByteStream b s sent) :
    (b.decode s.readIds.1).drop (b.decode s.readIds.2).length =
      b.decode (s.decodedIds.drop s.readOffset) := by
  have split : s.readIds.1 = s.readIds.2 ++ s.decodedIds.drop s.readOffset := by
    have inside : s.surrOffset ≤ (s.decodedIds.take s.readOffset).length := by
      rw [List.length_take, Nat.min_eq_left h.received]
      exact h.order
    simp only [DecodeStatus.readIds]
    rw [← List.drop_append_of_le_length inside, List.take_append_drop]
  have closed : b.Closed s.readIds.2 := h.context
  rw [split, closed.decode_append, List.drop_left]

/-- Reading the unread tokens keeps the invariant. The text so far is settled, and it is the whole
text unless that ends in the replacement character. -/
theorem ByteStream.advance (h : ByteStream b s sent) :
    let r := s.advance (b.decode s.readIds.1) (b.decode s.readIds.2)
    ByteStream b r.1 sent ∧ r.1.decodedIds = s.decodedIds ∧ r.1.sentOffset = s.sentOffset ∧
      r.2 <+: b.settled s.decodedIds ∧
      ((b.decode s.decodedIds).getLast? ≠ some replacementChar → r.2 = b.decode s.decodedIds) := by
  have read : b.Closed (s.decodedIds.take s.readOffset) :=
    b.closed_of_clean (h.decoded ▸ h.clean)
  have whole : s.decodedStr ++ b.decode (s.decodedIds.drop s.readOffset) =
      b.decode s.decodedIds := by
    rw [h.decoded, ← read.decode_append, List.take_append_drop]
  simp only [DecodeStatus.advance, h.drop_readIds]
  set newText := b.decode (s.decodedIds.drop s.readOffset) with hnew
  by_cases readable : 0 < newText.length ∧ newText.getLast? ≠ some replacementChar
  · simp only [if_pos readable, whole]
    have present : newText ≠ [] := List.length_pos_iff.mp readable.1
    have clean : (b.decode s.decodedIds).getLast? ≠ some replacementChar := by
      rw [← whole, List.getLast?_append_of_ne_nil _ present]
      exact readable.2
    refine ⟨?_, trivial, trivial, ?_, fun _ => trivial⟩
    · exact
        { order := h.received
          received := le_rfl
          decoded := by simp
          clean := clean
          context := by
            rw [List.take_length]
            exact b.closed_of_clean readable.2
          prefixSent := h.prefixSent
          bounded := h.bounded }
    · rw [(b.settled_eq_decode_iff _).mpr clean]
  · simp only [if_neg readable]
    refine ⟨h, trivial, trivial, ?_, fun clean => ?_⟩
    · by_cases present : newText = []
      · rw [present] at whole ⊢
        have same : b.settled s.decodedIds = b.decode s.decodedIds :=
          (b.settled_eq_decode_iff _).mpr (by rw [← whole, List.append_nil]; exact h.clean)
        rw [same, ← whole]
        exact List.prefix_rfl
      · -- The text ends in the replacement character, which alone is not settled.
        have ends : newText.getLast? = some replacementChar := by
          by_contra other
          exact readable ⟨List.length_pos_iff.mpr present, other⟩
        have sub : s.decodedStr ++ findPrintableText newText <+: b.decode s.decodedIds := by
          rw [← whole]
          exact (List.prefix_append_right_inj _).mpr (isPrefix_findPrintableText newText)
        have unsettled : b.settled s.decodedIds = (b.decode s.decodedIds).dropLast := by
          have last : (b.decode s.decodedIds).getLast? = some replacementChar := by
            rw [← whole, List.getLast?_append_of_ne_nil _ present, ends]
          exact if_pos last
        rw [unsettled]
        refine Utf8.prefix_dropLast sub ?_
        rw [← whole, List.length_append, List.length_append]
        have short := length_findPrintableText_lt ends
        omega
    · have empty : newText = [] := by
        by_contra present
        refine readable ⟨List.length_pos_iff.mpr present, ?_⟩
        rwa [← List.getLast?_append_of_ne_nil s.decodedStr present, whole]
      rw [← whole, empty]
      rfl

theorem ByteStream.released (h : ByteStream b s sent) {n : Nat}
    (inside : n ≤ (b.settled s.decodedIds).length) :
    ByteStream b { s with sentOffset := n } ((b.settled s.decodedIds).take n) :=
  { order := h.order
    received := h.received
    decoded := h.decoded
    clean := h.clean
    context := h.context
    prefixSent := rfl
    bounded := inside }

theorem receiveWith_emit (t : TokenTable) (decode : List Nat → List Char) (s : DecodeStatus)
    (msg : DetokenizeMsg) :
    let s₁ := s.append t msg
    let e := s₁.emit msg (decode s₁.readIds.1) (decode s₁.readIds.2)
    receiveWith t decode (some s) msg = (if msg.finished then none else some e.1, e.2) :=
  rfl

/-- A message keeps the invariant, and the client then has the text up to where its release
ends. -/
theorem ByteStream.receive (h : ByteStream b s sent) (msg : DetokenizeMsg) :
    let ids := (s.append b.table msg).decodedIds
    ∃ s₂ output, output <+: b.settled ids ∧
      ((b.decode ids).getLast? ≠ some replacementChar → output = b.decode ids) ∧
      (receiveWith b.table b.decode (some s) msg).1 = (if msg.finished then none else some s₂) ∧
      s₂.decodedIds = ids ∧
      ByteStream b s₂ (sent ++ (receiveWith b.table b.decode (some s) msg).2) ∧
      sent ++ (receiveWith b.table b.decode (some s) msg).2 =
        (b.settled ids).take (max s.sentOffset (emitEnd msg output)) := by
  obtain ⟨-, -, -, offset, -⟩ := append_spec (t := b.table) (s := s) msg
  have h₁ := h.append msg
  rw [receiveWith_emit]
  generalize s.append b.table msg = s₁ at h₁ offset
  obtain ⟨h₂, ids₂, sent₂, sub, clean⟩ := h₁.advance
  generalize advanced : s₁.advance (b.decode s₁.readIds.1) (b.decode s₁.readIds.2) = r
    at h₂ ids₂ sent₂ sub clean
  obtain ⟨s₂, output⟩ := r
  obtain ⟨increment, status⟩ := emit_increment (m := msg) advanced sub sent₂
  have inside : max s₁.sentOffset (emitEnd msg output) ≤ (b.settled s₂.decodedIds).length := by
    rw [ids₂]
    exact max_le h₁.bounded ((emitEnd_le msg output).trans sub.length_le)
  have known : sent ++ (s₁.emit msg (b.decode s₁.readIds.1) (b.decode s₁.readIds.2)).2 =
      (b.settled s₂.decodedIds).take (max s₁.sentOffset (emitEnd msg output)) := by
    rw [ids₂, ← increment, ← h₁.prefixSent]
  simp only [status, known]
  exact ⟨_, output, sub, clean, rfl, ids₂, h₂.released inside, by rw [ids₂, offset]⟩

theorem decodedIds_append (msg : DetokenizeMsg) :
    (s.append b.table msg).decodedIds = s.decodedIds ++ b.textIds [msg] := by
  by_cases beyond : msg.finished = true ∧ msg.nextToken ∈ b.eosTokenIds
  · simp [DecodeStatus.append, ByteTokenizer.table, ByteTokenizer.textIds, beyond.1, beyond.2]
  · have kept : (msg.finished && decide (msg.nextToken ∈ b.eosTokenIds)) = false := by
      simpa [Bool.and_eq_true] using beyond
    have appended : s.append b.table msg =
        { s with
          decodedIds := s.decodedIds ++ [msg.nextToken] } := if_neg beyond
    simp only [appended, ByteTokenizer.textIds, List.filter_cons, kept, Bool.not_false, if_true,
      List.filter_nil, List.map_cons, List.map_nil]

theorem ByteStream.receiveAll (h : ByteStream b s sent) {msgs : List DetokenizeMsg}
    (going : ∀ msg ∈ msgs, msg.finished = false) :
    ∃ s', (receiveAllWith b.table b.decode (some s) msgs).1 = some s' ∧
      s'.decodedIds = s.decodedIds ++ b.textIds msgs ∧
      ByteStream b s' (sent ++ (receiveAllWith b.table b.decode (some s) msgs).2) := by
  induction msgs generalizing s sent with
  | nil => exact ⟨s, rfl, by simp [ByteTokenizer.textIds], by simpa [receiveAllWith] using h⟩
  | cons msg msgs ih =>
    obtain ⟨s₁, -, -, -, status, ids, h₁, -⟩ := h.receive msg
    rw [going msg List.mem_cons_self, if_neg Bool.false_ne_true] at status
    obtain ⟨s', status', ids', h'⟩ := ih h₁ fun msg' mem => going msg' (List.mem_cons_of_mem _ mem)
    rw [receiveAllWith_cons, status]
    refine ⟨s', status', ?_, by rwa [← List.append_assoc]⟩
    rw [ids', ids, decodedIds_append, List.append_assoc, ByteTokenizer.textIds,
      ByteTokenizer.textIds, ByteTokenizer.textIds, ← List.map_append, ← List.filter_append,
      List.singleton_append]

/-- The last message of a generation gives the client the whole text, unless the text ends in the
replacement character: then only settled text. -/
theorem ByteStream.finish (h : ByteStream b s sent) {last : DetokenizeMsg}
    (done : last.finished = true) (unmatched : last.matchedStop = none) :
    let ids := (s.append b.table last).decodedIds
    let text := sent ++ (receiveWith b.table b.decode (some s) last).2
    text <+: b.settled ids ∧
      ((b.decode ids).getLast? ≠ some replacementChar → text = b.decode ids) := by
  obtain ⟨-, output, sub, clean, -, -, -, text⟩ := h.receive last
  simp only [text]
  refine ⟨List.take_prefix _ _, fun known => ?_⟩
  have whole := clean known
  have same := (b.settled_eq_decode_iff _).mpr known
  have released : emitEnd last output = (b.settled (s.append b.table last).decodedIds).length := by
    rw [same, ← whole]
    simp [emitEnd, done, unmatched]
  rw [released, List.take_of_length_le (le_max_right _ _), same]

end

/-- The messages of a generation that no stop string ends. -/
structure Generation (going : List DetokenizeMsg) (last : DetokenizeMsg) : Prop where
  going : ∀ msg ∈ going, msg.finished = false
  done : last.finished = true
  unmatched : last.matchedStop = none

theorem receiveAllWith_none (t : TokenTable) (decode : List Nat → List Char)
    {msgs : List DetokenizeMsg} (nonempty : msgs ≠ []) :
    receiveAllWith t decode none msgs =
      receiveAllWith t decode (some DecodeStatus.fresh) msgs := by
  cases msgs with
  | nil => exact absurd rfl nonempty
  | cons msg msgs => rfl

/-- What a worker gives the client of a generation over calls shared with other requests. -/
structure Lossless (b : ByteTokenizer) (m : DetokenizeManager) (uid : Nat) (calls : List Call)
    (ids : List Nat) : Prop where
  delivered : ∃ m' replies, m.serveWith b.decode calls = some (m', replies) ∧
    clientText uid replies = b.decode ids ∧ m'.decodeMap uid = none
  kept : ∀ n, ∃ m' replies, m.serveWith b.decode (calls.take n) = some (m', replies) ∧
    clientText uid replies <+: b.decode ids

section
variable {b : ByteTokenizer} {m : DetokenizeManager} {uid : Nat} {calls : List Call}
  {going : List DetokenizeMsg} {last : DetokenizeMsg}

theorem flatMap_take_isPrefix (uid : Nat) (calls : List Call) (n : Nat) :
    (calls.take n).flatMap (messagesOf uid) <+: calls.flatMap (messagesOf uid) := by
  conv_rhs => rw [← List.take_append_drop n calls, List.flatMap_append]
  exact List.prefix_append _ _

theorem textIds_append (b : ByteTokenizer) (msgs msgs' : List DetokenizeMsg) :
    b.textIds (msgs ++ msgs') = b.textIds msgs ++ b.textIds msgs' := by
  simp [ByteTokenizer.textIds]

/-- The messages of a generation, from the first token on: the client gets settled text, and all of
the text unless that ends in the replacement character. -/
theorem Generation.receiveAll (h : Generation going last) (b : ByteTokenizer) :
    let ids := b.textIds (going ++ [last])
    let r := receiveAllWith b.table b.decode none (going ++ [last])
    r.1 = none ∧ r.2 <+: b.settled ids ∧
      ((b.decode ids).getLast? ≠ some replacementChar → r.2 = b.decode ids) := by
  have nonempty : going ++ [last] ≠ [] := by simp
  obtain ⟨s, status, ids, stream⟩ := (ByteStream.fresh b).receiveAll h.going
  rw [List.nil_append] at stream
  have total : (s.append b.table last).decodedIds = b.textIds (going ++ [last]) := by
    rw [decodedIds_append, ids, textIds_append]
    rfl
  obtain ⟨s₂, -, -, -, left, -⟩ := stream.receive last
  have finish := stream.finish h.done h.unmatched
  simp only [total] at finish
  rw [receiveAllWith_none _ _ nonempty, receiveAllWith_append, status]
  simp only [receiveAllWith, List.append_nil]
  exact ⟨left.trans (if_pos h.done), finish⟩

theorem Generation.receiveAll_prefix (h : Generation going last) {msgs : List DetokenizeMsg}
    (part : msgs <+: going ++ [last]) :
    (receiveAllWith b.table b.decode none msgs).2 <+: b.decode (b.textIds (going ++ [last])) := by
  rcases List.prefix_concat_iff.mp part with rfl | part
  · exact (h.receiveAll b).2.1.trans (b.settled_isPrefix _)
  · by_cases empty : msgs = []
    · simp [empty, receiveAllWith]
    · obtain ⟨rest, rfl⟩ := part
      obtain ⟨s, -, ids, stream⟩ := (ByteStream.fresh b).receiveAll
        fun msg mem => h.going msg (List.mem_append_left rest mem)
      have sent := stream.prefixSent
      rw [List.nil_append, ids] at sent
      rw [receiveAllWith_none _ _ empty, sent, List.append_assoc, textIds_append]
      exact (List.take_prefix _ _).trans
        ((b.settled_append _ _).trans (b.settled_isPrefix _))

/-- The increments of a generation give the text of its tokens if and only if that text does not
end in the replacement character. -/
theorem lossless_iff (fresh : m.tokenizer = b.table) (unknown : m.decodeMap uid = none)
    (streams : ∀ call ∈ calls, Streams uid call)
    (own : calls.flatMap (messagesOf uid) = going ++ [last]) (generation : Generation going last) :
    Lossless b m uid calls (b.textIds (going ++ [last])) ↔
      (b.decode (b.textIds (going ++ [last]))).getLast? ≠ some replacementChar := by
  obtain ⟨m', replies, served, left, text⟩ := serveWith_spec (m := m) b.decode streams
  obtain ⟨forgotten, settled, whole⟩ := generation.receiveAll b
  rw [fresh, unknown, own] at left text
  constructor
  · rintro ⟨⟨m₁, replies₁, served₁, delivered, -⟩, -⟩
    cases Option.some.inj (served₁.symm.trans served)
    refine (b.settled_eq_decode_iff _).mp
      ((b.settled_isPrefix _).eq_of_length_le ?_)
    rw [← delivered, text]
    exact settled.length_le
  · intro clean
    refine ⟨⟨m', replies, served, text.trans (whole clean), left.trans forgotten⟩, fun n => ?_⟩
    obtain ⟨m₁, sent, served₁, -, text₁⟩ := serveWith_spec (m := m) b.decode
      fun call mem => streams call (List.mem_of_mem_take mem)
    refine ⟨m₁, sent, served₁, ?_⟩
    rw [text₁, fresh, unknown]
    exact generation.receiveAll_prefix (own ▸ flatMap_take_isPrefix uid calls n)

end

/-- A tokenizer with the letter `a`, the two halves of `é`, and an end-of-sequence token. -/
def smallBytes : ByteTokenizer :=
  { bytes := fun id => if id = 1 then [0x61] else if id = 2 then [0xC3] else [0xA9]
    eosTokenIds := [9] }

def smallWorker : DetokenizeManager := { tokenizer := smallBytes.table, decodeMap := fun _ => none }

/-- A message of a request, without stop strings. -/
def smallMsg (uid nextToken : Nat) (finished : Bool) : DetokenizeMsg :=
  { uid := uid, nextToken := nextToken, finished := finished, finishReason := none
    matchedStop := none, stopStrs := none }

/-- The two halves of a character, in calls shared with another request, reach the client as that
character. -/
theorem lossless_iff_small :
    Lossless smallBytes smallWorker 7
        [.detokenize [smallMsg 7 2 false, smallMsg 8 1 false], .detokenize [smallMsg 7 3 true]]
        [2, 3] ∧
      smallBytes.decode [2, 3] = ['é'] :=
  ⟨(@lossless_iff _ _ _ _ [smallMsg 7 2 false] (smallMsg 7 3 true) rfl rfl
      (by simp [Streams, smallMsg]) (by decide)
      ⟨by decide, by decide, by decide⟩).mpr (by decide), by decide⟩

/-- A generation that the budget ends after the first half of a character loses what the decoder
makes of that half. -/
theorem unfinished_character_lost :
    smallBytes.decode [1, 2] = ['a', replacementChar] ∧
      ¬ Lossless smallBytes smallWorker 7
        [.detokenize [smallMsg 7 1 false], .detokenize [smallMsg 7 2 true]] [1, 2] := by
  refine ⟨by decide, ?_⟩
  rintro ⟨⟨m', replies, served, delivered, -⟩, -⟩
  have received : [(7, ['a']), (7, [])] = replies := (Prod.mk.inj (Option.some.inj served)).2
  subst received
  exact absurd delivered (by decide)

end FreeSwarm.Tokenizer
