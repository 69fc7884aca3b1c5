import FreeSwarm.Tokenizer.Detokenize

/-!
# The calls of a worker, for any decoder

Messages of other requests in the same call, and whole calls about other requests, leave a
request's stream alone, whatever the tokenizer makes of a token sequence. The decoder is therefore
a parameter here: what a client receives is what its own messages give.
-/

namespace FreeSwarm.Tokenizer

def messagesOf (uid : Nat) : Call → List DetokenizeMsg
  | .detokenize msgs => msgs.filter (·.uid = uid)
  | .discard _ => []

/-- The calls keep to the scheduler's batches: a request has one token in a batch, and the request
is not dropped from outside. -/
def Streams (uid : Nat) : Call → Prop
  | .detokenize msgs => (msgs.map (·.uid)).Nodup
  | .discard other => other ≠ uid

/-- One message as its own request sees it. -/
def receiveWith (t : TokenTable) (decode : List Nat → List Char) (status : Option DecodeStatus)
    (msg : DetokenizeMsg) : Option DecodeStatus × List Char :=
  let s := (status.getD DecodeStatus.fresh).append t msg
  let (s', increment) := s.emit msg (decode s.readIds.1) (decode s.readIds.2)
  (if msg.finished then none else some s', increment)

/-- The messages of a request in order, and the text they give together. -/
def receiveAllWith (t : TokenTable) (decode : List Nat → List Char)
    (status : Option DecodeStatus) : List DetokenizeMsg → Option DecodeStatus × List Char
  | [] => (status, [])
  | msg :: msgs =>
    let (status₁, increment) := receiveWith t decode status msg
    let (status₂, rest) := receiveAllWith t decode status₁ msgs
    (status₂, increment ++ rest)

@[simp] theorem receiveAllWith_cons (t : TokenTable) (decode : List Nat → List Char)
    (status : Option DecodeStatus) (msg : DetokenizeMsg) (msgs : List DetokenizeMsg) :
    receiveAllWith t decode status (msg :: msgs) =
      ((receiveAllWith t decode (receiveWith t decode status msg).1 msgs).1,
        (receiveWith t decode status msg).2 ++
          (receiveAllWith t decode (receiveWith t decode status msg).1 msgs).2) := rfl

theorem receiveAllWith_append (t : TokenTable) (decode : List Nat → List Char)
    (status : Option DecodeStatus) (msgs msgs' : List DetokenizeMsg) :
    receiveAllWith t decode status (msgs ++ msgs') =
      ((receiveAllWith t decode (receiveAllWith t decode status msgs).1 msgs').1,
        (receiveAllWith t decode status msgs).2 ++
          (receiveAllWith t decode (receiveAllWith t decode status msgs).1 msgs').2) := by
  induction msgs generalizing status with
  | nil => rfl
  | cons msg msgs ih => simp [ih]

/-! ## One call -/

namespace DetokenizeManager

/-- The increments for the messages of one call, for a decoder of token sequences. -/
def detokenizeWith (m : DetokenizeManager) (decode : List Nat → List Char)
    (msgs : List DetokenizeMsg) : Option (DetokenizeManager × List (List Char)) :=
  let (m₁, ids) := m.collectAll msgs
  let texts := ids.map fun r => (decode r.1, decode r.2)
  m₁.releaseAll (msgs.zip texts)

/-- A run of calls, for a decoder of token sequences. -/
def serveWith (m : DetokenizeManager) (decode : List Nat → List Char) :
    List Call → Option (DetokenizeManager × List (Nat × List Char))
  | [] => some (m, [])
  | .discard uid :: calls => (m.discard uid).serveWith decode calls
  | .detokenize msgs :: calls =>
    (m.detokenizeWith decode msgs).bind fun (m₁, increments) =>
      (m₁.serveWith decode calls).map fun (m₂, replies) =>
        (m₂, (msgs.map (·.uid)).zip increments ++ replies)

def appended (m : DetokenizeManager) (msg : DetokenizeMsg) : DecodeStatus :=
  ((m.decodeMap msg.uid).getD DecodeStatus.fresh).append m.tokenizer msg

variable {m : DetokenizeManager} {msgs : List DetokenizeMsg}

/-- The first loop registers every message of the call and leaves the other requests alone. -/
theorem collectAll_spec
    (distinct : (msgs.map (·.uid)).Nodup) :
    (m.collectAll msgs).2 = msgs.map (fun msg => (m.appended msg).readIds) ∧
      (m.collectAll msgs).1.tokenizer = m.tokenizer ∧
      (∀ msg ∈ msgs, (m.collectAll msgs).1.decodeMap msg.uid = some (m.appended msg)) ∧
      ∀ uid ∉ msgs.map (·.uid), (m.collectAll msgs).1.decodeMap uid = m.decodeMap uid := by
  induction msgs generalizing m with
  | nil => simp [collectAll]
  | cons msg msgs ih =>
    simp only [List.map_cons, List.nodup_cons] at distinct
    obtain ⟨ids, same, inside, outside⟩ := ih (m := (m.collect msg).1) distinct.2
    have later : ∀ msg' ∈ msgs, (m.collect msg).1.appended msg' = m.appended msg' := by
      intro msg' mem
      have other : msg'.uid ≠ msg.uid := fun eq => distinct.1 (eq ▸ List.mem_map_of_mem mem)
      simp [appended, collect, Function.update_of_ne other]
    refine ⟨?_, same, ?_, ?_⟩
    · change (m.collect msg).2 :: ((m.collect msg).1.collectAll msgs).2 = _
      rw [ids, List.map_cons, List.map_congr_left fun msg' mem => by rw [later msg' mem]]
      rfl
    · intro msg' mem
      rcases List.mem_cons.mp mem with rfl | mem
      · exact (outside _ distinct.1).trans (by simp [collect, appended])
      · exact (inside msg' mem).trans (by rw [later msg' mem])
    · intro uid absent
      simp only [List.map_cons, List.mem_cons, not_or] at absent
      exact (outside uid absent.2).trans (by simp [collect, Function.update_of_ne absent.1])

/-- The second loop gives every message the increment of its own status. -/
theorem releaseAll_spec
    {status : DetokenizeMsg → DecodeStatus} (texts : DetokenizeMsg → List Char × List Char)
    (distinct : (msgs.map (·.uid)).Nodup)
    (known : ∀ msg ∈ msgs, m.decodeMap msg.uid = some (status msg)) :
    ∃ m', m.releaseAll (msgs.zip (msgs.map texts)) =
        some (m', msgs.map fun msg => ((status msg).emit msg (texts msg).1 (texts msg).2).2) ∧
      m'.tokenizer = m.tokenizer ∧
      (∀ msg ∈ msgs, m'.decodeMap msg.uid = if msg.finished then none
        else some ((status msg).emit msg (texts msg).1 (texts msg).2).1) ∧
      ∀ uid ∉ msgs.map (·.uid), m'.decodeMap uid = m.decodeMap uid := by
  induction msgs generalizing m with
  | nil => exact ⟨m, rfl, rfl, by simp, by simp⟩
  | cons msg msgs ih =>
    simp only [List.map_cons, List.nodup_cons] at distinct
    have head := known msg (by simp)
    set m₁ : DetokenizeManager :=
      { m with
        decodeMap := Function.update m.decodeMap msg.uid (if msg.finished then none
          else some ((status msg).emit msg (texts msg).1 (texts msg).2).1) } with hm₁
    have step : m.release msg (texts msg).1 (texts msg).2 =
        some (m₁, ((status msg).emit msg (texts msg).1 (texts msg).2).2) := by
      simp [release, head, hm₁]
    have known₁ : ∀ msg' ∈ msgs, m₁.decodeMap msg'.uid = some (status msg') := by
      intro msg' mem
      have other : msg'.uid ≠ msg.uid := fun eq => distinct.1 (eq ▸ List.mem_map_of_mem mem)
      simpa [hm₁, Function.update_of_ne other] using known msg' (by simp [mem])
    obtain ⟨m', done, same, inside, outside⟩ := ih (m := m₁) distinct.2 known₁
    refine ⟨m', ?_, same, ?_, ?_⟩
    · simp [releaseAll, step, done]
    · intro msg' mem
      rcases List.mem_cons.mp mem with rfl | mem
      · exact (outside _ distinct.1).trans (by simp [hm₁])
      · exact inside msg' mem
    · intro uid absent
      simp only [List.map_cons, List.mem_cons, not_or] at absent
      exact (outside uid absent.2).trans (by simp [hm₁, Function.update_of_ne absent.1])

theorem detokenizeWith_spec
    (decode : List Nat → List Char) (distinct : (msgs.map (·.uid)).Nodup) :
    ∃ m', m.detokenizeWith decode msgs = some (m', msgs.map fun msg =>
        (receiveWith m.tokenizer decode (m.decodeMap msg.uid) msg).2) ∧
      m'.tokenizer = m.tokenizer ∧
      (∀ msg ∈ msgs, m'.decodeMap msg.uid =
        (receiveWith m.tokenizer decode (m.decodeMap msg.uid) msg).1) ∧
      ∀ uid ∉ msgs.map (·.uid), m'.decodeMap uid = m.decodeMap uid := by
  obtain ⟨ids, same, inside, outside⟩ := collectAll_spec (m := m) distinct
  obtain ⟨m', done, same', inside', outside'⟩ := releaseAll_spec
    (fun msg => (decode (m.appended msg).readIds.1, decode (m.appended msg).readIds.2))
    distinct inside
  refine ⟨m', ?_, same'.trans same, inside', fun uid absent =>
    (outside' uid absent).trans (outside uid absent)⟩
  simp only [detokenizeWith, ids, List.map_map]
  exact done

end DetokenizeManager

/-! ## A run of calls -/

/-- The messages of a request in a batch without repetitions are at most one. -/
theorem filter_uid {msgs : List DetokenizeMsg} (uid : Nat) (distinct : (msgs.map (·.uid)).Nodup) :
    (uid ∉ msgs.map (·.uid) ∧ msgs.filter (·.uid = uid) = []) ∨
      ∃ msg ∈ msgs, msg.uid = uid ∧ msgs.filter (·.uid = uid) = [msg] := by
  induction msgs with
  | nil => simp
  | cons msg msgs ih =>
    simp only [List.map_cons, List.nodup_cons] at distinct
    by_cases own : msg.uid = uid
    · refine .inr ⟨msg, by simp, own, ?_⟩
      have rest : msgs.filter (·.uid = uid) = [] := by
        refine List.filter_eq_nil_iff.mpr fun other mem => ?_
        simp only [decide_eq_true_eq]
        rintro same
        exact distinct.1 (own ▸ same ▸ List.mem_map_of_mem mem)
      simp [own, rest]
    · rcases ih distinct.2 with ⟨absent, none⟩ | ⟨other, mem, same, one⟩
      · exact .inl ⟨by simpa [Ne.symm own] using absent, by simpa [own] using none⟩
      · exact .inr ⟨other, by simp [mem], same, by simpa [own] using one⟩

@[simp] theorem clientText_append (uid : Nat) (replies replies' : List (Nat × List Char)) :
    clientText uid (replies ++ replies') = clientText uid replies ++ clientText uid replies' := by
  simp [clientText]

/-- The increments of a call that go to a request are those of its own messages. -/
theorem clientText_zip (uid : Nat) (msgs : List DetokenizeMsg)
    (increment : DetokenizeMsg → List Char) :
    clientText uid ((msgs.map (·.uid)).zip (msgs.map increment)) =
      (msgs.filter (·.uid = uid)).flatMap increment := by
  induction msgs with
  | nil => rfl
  | cons msg msgs ih =>
    by_cases own : msg.uid = uid
    · simpa [clientText, own] using ih
    · simpa [clientText, own] using ih

/-- A run of calls always succeeds, gives a client what its own messages give, and leaves the
request as they do. -/
theorem serveWith_spec {m : DetokenizeManager} {calls : List Call} {uid : Nat}
    (decode : List Nat → List Char) (streams : ∀ call ∈ calls, Streams uid call) :
    ∃ m' replies, m.serveWith decode calls = some (m', replies) ∧
      m'.decodeMap uid = (receiveAllWith m.tokenizer decode (m.decodeMap uid)
        (calls.flatMap (messagesOf uid))).1 ∧
      clientText uid replies = (receiveAllWith m.tokenizer decode (m.decodeMap uid)
        (calls.flatMap (messagesOf uid))).2 := by
  induction calls generalizing m with
  | nil => exact ⟨m, [], rfl, rfl, rfl⟩
  | cons call calls ih =>
    have later : ∀ call' ∈ calls, Streams uid call' := fun call' mem => streams call' (by simp [mem])
    have here := streams call (by simp)
    cases call with
    | discard other =>
      obtain ⟨m', replies, done, left, text⟩ := ih (m := m.discard other) later
      have kept : (m.discard other).decodeMap uid = m.decodeMap uid := by
        simp [DetokenizeManager.discard, Function.update_of_ne (Ne.symm here)]
      rw [kept] at left text
      exact ⟨m', replies, done, left, text⟩
    | detokenize msgs =>
      obtain ⟨m₁, called, same, inside, outside⟩ :=
        DetokenizeManager.detokenizeWith_spec (m := m) decode here
      obtain ⟨m', replies, done, left, text⟩ := ih (m := m₁) later
      refine ⟨m', (msgs.map (·.uid)).zip (msgs.map fun msg =>
        (receiveWith m.tokenizer decode (m.decodeMap msg.uid) msg).2) ++ replies, ?_, ?_⟩
      · simp [DetokenizeManager.serveWith, called, done]
      · rw [clientText_append, clientText_zip, text, left, List.flatMap_cons,
          receiveAllWith_append, same]
        rcases filter_uid uid here with ⟨absent, none⟩ | ⟨msg, mem, own, one⟩
        · simp [messagesOf, none, receiveAllWith, outside uid absent]
        · have status : m₁.decodeMap uid =
              (receiveWith m.tokenizer decode (m.decodeMap uid) msg).1 := by
            rw [← own]
            exact inside msg mem
          simp [messagesOf, one, receiveAllWith, status, own]

end FreeSwarm.Tokenizer
