import FreeSwarm.Server.ToolCalls

/-!
# The loop of a detector

The detectors of the tool-call formats take turns at a buffer. A turn may decide a beginning of the
buffer and go on, or it has to wait, and a step of a stream ends with the first turn that waits. Text
behind a call is left to the next step.

What a stream of a complete text gives is followed by a plan: the text that a state has not decided
yet, and what it has still to give. When every turn keeps the plan, so does a stream, however it is
cut, and once everything has arrived, every further step ends another block.
-/

namespace FreeSwarm.Server

open FreeSwarm.Foundation

structure StreamTurn (σ : Type) where
  next : σ
  out : StreamingParseResult
  again : Bool

/-- A parser that takes turns at a buffer. -/
structure StreamMachine (σ : Type) where
  buffer : σ → List Char
  receive : σ → List Char → σ
  /-- A turn, when something is in the buffer, which may fail. The flag says whether a call was sent
  in this step. -/
  round : σ → Bool → Option (StreamTurn σ)
  turns : σ → Nat

namespace StreamMachine

variable {σ : Type} (m : StreamMachine σ)

/-- The loop, for so many turns. -/
def loop : Nat → σ → StreamingParseResult → Option (σ × StreamingParseResult)
  | 0, _, _ => none
  | turns + 1, s, out =>
    if m.buffer s = [] then some (s, out)
    else
      match m.round s (!out.calls.isEmpty) with
      | none => none
      | some turn =>
        if turn.again then loop turns turn.next (out ++ turn.out)
        else some (turn.next, out ++ turn.out)

def parseStreamingIncrement (s : σ) (newText : List Char) : Option (σ × StreamingParseResult) :=
  m.loop (m.turns (m.receive s newText) + 1) (m.receive s newText) .empty

def feed (s : σ) : List (List Char) → Option (σ × StreamingParseResult)
  | [] => some (s, .empty)
  | piece :: pieces => do
    let (s, out) ← m.parseStreamingIncrement s piece
    let (s, out') ← feed s pieces
    some (s, out ++ out')

variable (idle : σ → Prop) (Plan : σ → List Char → List Char → List CallEvent → Nat → Prop)

/-- A turn keeps the plan: it gives a beginning of what is to be given, and what it leaves determines
the rest. -/
structure KeptTo
    (s : σ) (called : Bool) (turn : StreamTurn σ)
    (future normal : List Char) (calls : List CallEvent) (blocks : Nat)
    (left' normal' : List Char) (calls' : List CallEvent) (blocks' : Nat) : Prop where
  whole : m.buffer turn.next ++ future = left'
  plan : Plan turn.next left' normal' calls' blocks'
  normal : normal = turn.out.normalText ++ normal'
  calls : calls = callEvents turn.out.calls ++ calls'
  fewer : blocks' ≤ blocks
  shorter : turn.again = true → m.turns turn.next < m.turns s
  stops : turn.again = false → future = [] → blocks' = 0 ∨ (idle s ∧ called = true)
  ends : idle turn.next → (idle s ∧ turn.out.calls = []) ∨ blocks' < blocks

def Kept
    (s : σ) (called : Bool) (turn : StreamTurn σ) (future normal : List Char)
    (calls : List CallEvent) (blocks : Nat) : Prop :=
  ∃ left' normal' calls' blocks',
    m.KeptTo idle Plan s called turn future normal calls blocks left' normal' calls' blocks'

/-- A plan that text which arrives and every turn keep. -/
structure Planned
    : Prop where
  buffer : ∀ s newText, m.buffer (m.receive s newText) = m.buffer s ++ newText
  receive : ∀ s newText left normal calls blocks, Plan s left normal calls blocks →
    Plan (m.receive s newText) left normal calls blocks
  round : ∀ s called future left normal calls blocks, Plan s left normal calls blocks →
    m.buffer s ++ future = left → m.buffer s ≠ [] →
      ∃ turn, m.round s called = some turn ∧
        m.Kept idle Plan s called turn future normal calls blocks
  arrived : ∀ s normal calls blocks, Plan s [] normal calls blocks → blocks = 0

/-- What a step leaves: a plan for the rest, with no more blocks, and with fewer when everything has
arrived and some are left. -/
structure StepTo
    (future normal : List Char) (calls : List CallEvent)
    (blocks : Nat) (s' : σ) (out : StreamingParseResult)
    (normal' : List Char) (calls' : List CallEvent) (blocks' : Nat) : Prop where
  plan : Plan s' (m.buffer s' ++ future) normal' calls' blocks'
  normal : normal = out.normalText ++ normal'
  calls : calls = callEvents out.calls ++ calls'
  fewer : blocks' ≤ blocks
  progress : future = [] → blocks' = 0 ∨ blocks' < blocks

section
variable {m} {idle : σ → Prop} {Plan : σ → List Char → List Char → List CallEvent → Nat → Prop}
  {future : List Char}

theorem kept_wait {s s' : σ} {called : Bool} {left normal : List Char} {calls : List CallEvent}
    {blocks : Nat} (plan : Plan s' left normal calls blocks) (whole : m.buffer s' ++ future = left)
    (mode : idle s' → idle s)
    (stops : future = [] → blocks = 0 ∨ (idle s ∧ called = true)) :
    m.Kept idle Plan s called { next := s', out := .empty, again := false } future normal calls
      blocks :=
  ⟨left, normal, calls, blocks,
    { whole := whole, plan := plan, normal := rfl, calls := rfl, fewer := le_rfl
      shorter := fun again => absurd again (by simp)
      stops := fun _ => stops, ends := fun idle' => .inl ⟨mode idle', rfl⟩ }⟩

theorem kept_on {s : σ} {called : Bool} {turn : StreamTurn σ} {left normal : List Char}
    {calls calls' : List CallEvent} {blocks : Nat} (whole : m.buffer turn.next ++ future = left)
    (plan : Plan turn.next left normal calls' blocks) (silent : turn.out.normalText = [])
    (sent : calls = callEvents turn.out.calls ++ calls') (again : turn.again = true)
    (busy : ¬ idle turn.next) (shorter : m.turns turn.next < m.turns s) :
    m.Kept idle Plan s called turn future normal calls blocks :=
  ⟨left, normal, calls', blocks,
    { whole := whole, plan := plan, normal := by rw [silent, List.nil_append], calls := sent
      fewer := le_rfl, shorter := fun _ => shorter
      stops := fun stays => absurd (again.symm.trans stays) Bool.noConfusion
      ends := fun idle' => absurd idle' busy }⟩

/-- The loop keeps a plan. What was given before belongs to the same step: when it had calls, a block
has ended since the stream is outside blocks. -/
theorem loop_kept (planned : m.Planned idle Plan) {start : Nat} (turns : Nat) (s : σ)
    (out : StreamingParseResult) {left normal : List Char} {calls : List CallEvent} {blocks : Nat}
    (plan : Plan s left normal calls blocks) (whole : m.buffer s ++ future = left)
    (enough : m.turns s < turns) (bound : blocks ≤ start)
    (ended : out.calls ≠ [] → idle s → blocks < start) :
    ∃ s' more normal' calls' blocks',
      m.loop turns s out = some (s', out ++ more) ∧
        m.StepTo Plan future normal calls start s' more normal' calls' blocks' := by
  induction turns generalizing s out left normal calls blocks with
  | zero => omega
  | succ turns ih =>
    rw [loop]
    split_ifs with empty
    · have same : out ++ StreamingParseResult.empty = out := by
        cases out
        exact congrArg₂ StreamingParseResult.mk (List.append_nil _) (List.append_nil _)
      refine ⟨s, .empty, normal, calls, blocks, by rw [same],
        ⟨whole.symm ▸ plan, rfl, rfl, bound, fun arrived => .inl ?_⟩⟩
      rw [empty, arrived] at whole
      subst whole
      exact planned.arrived s normal calls blocks plan
    obtain ⟨turn, found, left', normal', calls', blocks', kept⟩ :=
      planned.round s (!out.calls.isEmpty) future left normal calls blocks plan whole empty
    simp only [found]
    have fewer := kept.fewer
    split_ifs with again
    · have shorter := kept.shorter again
      have ended' : (out ++ turn.out).calls ≠ [] → idle turn.next → blocks' < start := by
        intro some_ idle'
        rcases kept.ends idle' with ⟨before, none_⟩ | less
        · have called : out.calls ≠ [] := by
            rw [StreamingParseResult.calls_append, none_, List.append_nil] at some_
            exact some_
          have := ended called before
          omega
        · omega
      obtain ⟨s', more, normal'', calls'', blocks'', ran, step⟩ :=
        ih turn.next (out ++ turn.out) kept.plan kept.whole (by omega) (by omega) ended'
      refine ⟨s', turn.out ++ more, normal'', calls'', blocks'', ?_,
        ⟨step.plan, ?_, ?_, step.fewer, step.progress⟩⟩
      · rw [ran]
        exact congrArg (fun o => some (s', o)) (congrArg₂ StreamingParseResult.mk
          (List.append_assoc _ _ _) (List.append_assoc _ _ _))
      · rw [kept.normal, step.normal]
        simp
      · rw [kept.calls, step.calls]
        simp
    · refine ⟨turn.next, turn.out, normal', calls', blocks', rfl,
        ⟨kept.whole.symm ▸ kept.plan, kept.normal, kept.calls, by omega, fun arrived => ?_⟩⟩
      rcases kept.stops (by simpa using again) arrived with zero | ⟨before, called⟩
      · exact .inl zero
      · have := ended (by simpa using called) before
        exact .inr (by omega)

theorem parseStreamingIncrement_kept (planned : m.Planned idle Plan) (s : σ)
    {newText normal : List Char} {calls : List CallEvent} {blocks : Nat}
    (plan : Plan s (m.buffer s ++ (newText ++ future)) normal calls blocks) :
    ∃ s' out normal' calls' blocks', m.parseStreamingIncrement s newText = some (s', out) ∧
      m.StepTo Plan future normal calls blocks s' out normal' calls' blocks' := by
  have whole : m.buffer (m.receive s newText) ++ future = m.buffer s ++ (newText ++ future) := by
    rw [planned.buffer, List.append_assoc]
  exact loop_kept planned _ (m.receive s newText) .empty (planned.receive _ newText _ _ _ _ plan) whole
    (Nat.lt_succ_self _) le_rfl fun some_ => absurd rfl some_

theorem feed_kept (planned : m.Planned idle Plan) (pieces : List (List Char)) (steps : Nat) (s : σ)
    {normal : List Char} {calls : List CallEvent} {blocks : Nat}
    (plan : Plan s (m.buffer s ++ pieces.flatten) normal calls blocks) :
    ∃ s' out normal' calls' blocks', m.feed s (pieces ++ List.replicate steps []) = some (s', out) ∧
      Plan s' (m.buffer s') normal' calls' blocks' ∧
      normal = out.normalText ++ normal' ∧ calls = callEvents out.calls ++ calls' ∧
        blocks' ≤ blocks - steps := by
  induction pieces generalizing s normal calls blocks with
  | nil =>
    rw [List.nil_append]
    rw [List.flatten_nil, List.append_nil] at plan
    induction steps generalizing s normal calls blocks with
    | zero => exact ⟨s, .empty, normal, calls, blocks, rfl, plan, rfl, rfl, le_rfl⟩
    | succ steps ih =>
      obtain ⟨s', out, normal', calls', blocks', ran, step⟩ :=
        @parseStreamingIncrement_kept _ m idle Plan [] planned s [] normal calls blocks
          (by simpa using plan)
      have plan' := step.plan
      rw [List.append_nil] at plan'
      obtain ⟨s'', out', normal'', calls'', blocks'', fed, plan'', normal_, calls_, bound⟩ :=
        ih s' plan'
      refine ⟨s'', out ++ out', normal'', calls'', blocks'', ?_, plan'', ?_, ?_, ?_⟩
      · rw [List.replicate_succ, feed, ran]
        simp [fed]
      · rw [step.normal, normal_]
        simp
      · rw [step.calls, calls_]
        simp
      · have := step.progress rfl
        omega
  | cons piece pieces ih =>
    obtain ⟨s', out, normal', calls', blocks', ran, step⟩ :=
      @parseStreamingIncrement_kept _ m idle Plan pieces.flatten planned s piece normal calls blocks
        (by simpa using plan)
    obtain ⟨s'', out', normal'', calls'', blocks'', fed, plan'', normal_, calls_, bound⟩ :=
      ih s' step.plan
    refine ⟨s'', out ++ out', normal'', calls'', blocks'', ?_, plan'', ?_, ?_, ?_⟩
    · rw [List.cons_append, feed, ran]
      simp [fed]
    · rw [step.normal, normal_]
      simp
    · rw [step.calls, calls_]
      simp
    · have := step.fewer
      omega

end

/-- However the text is cut, its stream sends these calls whole, in this order, and arguments that are
valid JSON, when at least so many empty steps follow it. -/
def StreamsCalls (m : StreamMachine σ) (start : σ) (text : List Char) (steps : Nat)
    (calls : List (List Char × List Char)) : Prop :=
  (∀ call ∈ calls, (Json.loads call.2).isSome) ∧
    ∀ pieces : List (List Char), pieces.flatten = text → ∀ more, steps ≤ more →
      ∃ s out, m.feed start (pieces ++ List.replicate more []) = some (s, out) ∧
        callEvents out.calls = wholeCalls 0 calls

theorem streamsCalls_of_plan {m : StreamMachine σ} {idle : σ → Prop}
    {Plan : σ → List Char → List Char → List CallEvent → Nat → Prop} (planned : m.Planned idle Plan)
    (done : ∀ s left normal calls, Plan s left normal calls 0 → calls = []) {start : σ}
    {text normal : List Char} {calls : List (List Char × List Char)} {blocks : Nat}
    (empty : m.buffer start = []) (plan : Plan start text normal (wholeCalls 0 calls) blocks)
    (valid : ∀ call ∈ calls, (Json.loads call.2).isSome) :
    m.StreamsCalls start text blocks calls := by
  refine ⟨valid, fun pieces whole more enough => ?_⟩
  obtain ⟨s, out, normal', calls', blocks', fed, plan', -, sent, bound⟩ :=
    @feed_kept _ m idle Plan planned pieces more start normal (wholeCalls 0 calls) blocks
      (by rw [empty, whole]; exact plan)
  obtain rfl : blocks' = 0 := by omega
  obtain rfl := done _ _ _ _ plan'
  rw [List.append_nil] at sent
  exact ⟨s, out, fed, sent.symm⟩

/-! ## Turns that several detectors take -/

/-- A turn outside blocks: the text up to the next opening marker is given away, or all of it but what
may be a beginning of one, and the marker is taken. -/
def ordinaryTurn (botToken : List Char) (called : Bool) (buf : List Char)
    (stay enter : List Char → σ) : StreamTurn σ :=
  if called then { next := stay buf, out := .empty, again := false }
  else
    match findSub botToken buf with
    | none =>
      let safe := buf.length - endsWithPartialToken buf botToken
      { next := stay (buf.drop safe), out := ⟨buf.take safe, []⟩, again := false }
    | some pos =>
      if 0 < pos then { next := stay (buf.drop pos), out := ⟨buf.take pos, []⟩, again := true }
      else { next := enter (buf.drop botToken.length), out := .empty, again := true }

section
variable {m} {idle : σ → Prop} {Plan : σ → List Char → List Char → List CallEvent → Nat → Prop}
  {future : List Char} {s : σ} {called : Bool}

/-- A turn outside blocks keeps a plan that says of every text before the same rest that it is still
to be given. -/
theorem ordinaryTurn_kept {botToken text rest ordinary : List Char} {stay enter : List Char → σ}
    {calls : List CallEvent} {blocks : Nat} (headed : Headed '<' [botToken])
    (free : FreeOf [botToken] text) (here : idle s)
    (entering : ∀ buf, ¬ idle (enter buf)) (buffer_stay : ∀ buf, m.buffer (stay buf) = buf)
    (buffer_enter : ∀ buf, m.buffer (enter buf) = buf)
    (plan : ∀ buf text, FreeOf [botToken] text → Plan (stay buf) (text ++ rest) (text ++ ordinary)
      calls blocks)
    (begins : (rest = [] ∧ blocks = 0) ∨
      ∃ inner, rest = botToken ++ inner ∧ ∀ buf, Plan (enter buf) inner ordinary calls blocks)
    (shorter : ∀ buf, buf.length < (m.buffer s).length →
      m.turns (stay buf) < m.turns s ∧ m.turns (enter buf) < m.turns s)
    (whole : m.buffer s ++ future = text ++ rest) (nonempty : m.buffer s ≠ []) :
    m.Kept idle Plan s called (ordinaryTurn botToken called (m.buffer s) stay enter) future
      (text ++ ordinary) calls blocks := by
  have mem : botToken ∈ [botToken] := List.mem_singleton_self _
  unfold ordinaryTurn
  split_ifs with deferred
  · exact kept_wait (plan _ text free) (by rw [buffer_stay, whole]) (fun _ => here)
      fun _ => .inr ⟨here, deferred⟩
  have hold := endsWithPartialToken_eq headed mem (m.buffer s)
  cases found : findSub botToken (m.buffer s) with
  | none =>
    obtain ⟨text', same, left⟩ : ∃ text',
        text = (m.buffer s).take ((m.buffer s).length - partialLen [botToken] (m.buffer s)) ++ text' ∧
          (m.buffer s).drop ((m.buffer s).length - partialLen [botToken] (m.buffer s)) ++ future =
            text' ++ rest := by
      rcases begins with ⟨rfl, -⟩ | ⟨inner, rfl, -⟩
      · rw [List.append_nil] at whole
        refine ⟨_, ?_, (List.append_nil _).symm⟩
        rw [← List.append_assoc, List.take_append_drop, whole]
      · exact hold_ahead mem whole found
    rw [← hold] at same left
    refine ⟨_, _, _, _,
      { whole := (congrArg (· ++ future) (buffer_stay _)).trans left
        plan := plan _ text' (same ▸ free).right
        normal := ?_, calls := rfl, fewer := le_rfl
        shorter := fun again => absurd again (by simp)
        stops := fun _ arrived => ?_, ends := fun _ => .inl ⟨here, rfl⟩ }⟩
    · conv_lhs => rw [same, List.append_assoc]
    · rcases begins with ⟨-, zero⟩ | ⟨inner, rfl, -⟩
      · exact .inl zero
      · exact absurd arrived (ne_nil_of_unseen whole found)
  | some pos =>
    rcases begins with ⟨rfl, -⟩ | ⟨inner, rfl, entered⟩
    · rw [List.append_nil] at whole
      have occurs : botToken <:+: m.buffer s := by
        by_contra absent
        rw [findSub_eq_none_iff.mpr absent] at found
        exact absurd found (by simp)
      exact absurd (occurs.trans (whole ▸ (List.prefix_append (m.buffer s) future).isInfix))
        (free _ mem)
    · obtain ⟨rfl, taken, left⟩ := headed.found_ahead mem free whole found
      have dropped := drop_ahead whole taken
      have positive := List.length_pos_iff.mpr nonempty
      have room := findSub_room (headed.ne_nil mem) found
      have long := List.length_pos_iff.mpr (headed.ne_nil mem)
      simp only
      split_ifs with some_
      · have nothing : FreeOf [botToken] ([] : List Char) := fun tok mem' occurs =>
          headed.ne_nil mem' (List.infix_nil.mp occurs)
        refine ⟨_, _, _, _,
          { whole := (congrArg (· ++ future) (buffer_stay _)).trans dropped
            plan := plan _ [] nothing
            normal := ?_, calls := rfl, fewer := le_rfl, shorter := fun _ => (shorter _ ?_).1
            stops := fun again => absurd again (by simp), ends := fun _ => .inl ⟨here, rfl⟩ }⟩
        · rw [List.nil_append]
          exact congrArg (· ++ ordinary) taken.symm
        · rw [List.length_drop]
          omega
      · obtain rfl : text = [] := List.length_eq_zero_iff.mp (by omega)
        rw [List.length_nil, Nat.zero_add] at left
        refine ⟨_, _, _, _,
          { whole := (congrArg (· ++ future) (buffer_enter _)).trans left
            plan := entered _, normal := rfl, calls := rfl, fewer := le_rfl
            shorter := fun _ => (shorter _ ?_).2
            stops := fun again => absurd again (by simp)
            ends := fun idle' => absurd idle' (entering _) }⟩
        rw [List.length_drop]
        omega

end

end StreamMachine

end FreeSwarm.Server
