import FreeSwarm.Server.ToolCalls

/-!
# Generation events

The events of a generation, in no wire format, and the loop that hands them to a formatter. The loop
puts a sentinel between the events when none has come for a while, and passes on an exception that
ends them.
-/

namespace FreeSwarm.Server

/-- A protocol-neutral generation event. -/
inductive GenEvent where
  | reasoningDelta (text : List Char)
  | contentDelta (text : List Char)
  | toolCallStart (toolIndex : Int) (name : Option (List Char)) (argsPrefixStable : Bool)
  | toolCallArgsDelta (toolIndex : Int) (fragment : List Char)
  | toolCallsDelta (calls : List ToolCallItem)
  | genDone (finishReason : List Char) (promptTokens completionTokens : Nat)
      (matchedStop : Option (List Char)) (cachedTokens : Nat)
  deriving DecidableEq

/-- The end of the generation, or an event before it. -/
def GenEvent.isDone : GenEvent → Bool
  | genDone .. => true
  | _ => false

/-- An exception that the events may end with. -/
inductive StreamError where
  /-- A `GenerationError` with its message and its code. -/
  | generation (message : List Char) (code : Option (List Char))
  | timeout (message : List Char)
  | other (message : List Char)
  deriving DecidableEq

/-- What comes behind the last event. -/
inductive Ending where
  | exhausted
  | raised (error : StreamError)
  deriving DecidableEq

/-- What a formatter gets to see. -/
inductive StreamItem where
  | keepalive
  | event (ev : GenEvent)

/-- An event stream: before each event, and before the end, stands the number of times that the wait
for it is given up. -/
structure EventStream where
  events : List (Nat × GenEvent)
  silence : Nat
  ending : Ending

/-- The turns of the loop around the events: what it hands on in so many turns, and what has ended it
if it has ended. A wait that is given up is told by the timeout that it raises, and then the same
read is waited for again. -/
def withKeepalive : Nat → EventStream → List StreamItem × Option Ending
  | 0, _ => ([], none)
  | turns + 1, ⟨(silence + 1, ev) :: events, last, ending⟩ =>
    let (items, ended) := withKeepalive turns ⟨(silence, ev) :: events, last, ending⟩
    (.keepalive :: items, ended)
  | turns + 1, ⟨(0, ev) :: events, last, ending⟩ =>
    let (items, ended) := withKeepalive turns ⟨events, last, ending⟩
    (.event ev :: items, ended)
  | turns + 1, ⟨[], last + 1, ending⟩ =>
    let (items, ended) := withKeepalive turns ⟨[], last, ending⟩
    (.keepalive :: items, ended)
  | turns + 1, ⟨[], 0, .raised (.timeout message)⟩ =>
    -- The read has failed with the exception that a wait which is given up raises.
    let (items, ended) := withKeepalive turns ⟨[], 0, .raised (.timeout message)⟩
    (.keepalive :: items, ended)
  | _ + 1, ⟨[], 0, ending⟩ => ([], some ending)

variable (source : EventStream)

def EventStream.items : List StreamItem :=
  (source.events.flatMap fun (silence, ev) =>
    List.replicate silence .keepalive ++ [.event ev]) ++ List.replicate source.silence .keepalive

/-- The events of a stream end with the end of the generation, which comes once, or with an
exception. -/
def EventStream.Ended : Prop :=
  match source.ending with
  | .exhausted => ∃ events silence done, source.events = events ++ [(silence, done)] ∧
      done.isDone = true ∧ ∀ ev ∈ events, ev.2.isDone = false
  | .raised _ => ∀ ev ∈ source.events, ev.2.isDone = false

def EventStream.Times : Prop :=
  ∀ message, source.ending ≠ .raised (.timeout message)

/-- No wait is given up behind the end of the generation. -/
def EventStream.Prompt : Prop := source.ending = .exhausted → source.silence = 0

@[simp] theorem items_wait (silence : Nat) (ev : GenEvent) (events : List (Nat × GenEvent))
    (last : Nat) (ending : Ending) :
    EventStream.items ⟨(silence + 1, ev) :: events, last, ending⟩ =
      .keepalive :: EventStream.items ⟨(silence, ev) :: events, last, ending⟩ := by
  simp [EventStream.items, List.replicate_succ]

@[simp] theorem items_event (ev : GenEvent) (events : List (Nat × GenEvent)) (last : Nat)
    (ending : Ending) :
    EventStream.items ⟨(0, ev) :: events, last, ending⟩ =
      .event ev :: EventStream.items ⟨events, last, ending⟩ := by
  simp [EventStream.items]

@[simp] theorem items_silence (last : Nat) (ending : Ending) :
    EventStream.items ⟨[], last + 1, ending⟩ = .keepalive :: EventStream.items ⟨[], last, ending⟩ := by
  simp [EventStream.items, List.replicate_succ]

variable {source : EventStream}

theorem withKeepalive_ended {turns : Nat} {ending : Ending}
    (ended : (withKeepalive turns source).2 = some ending) :
    (withKeepalive turns source).1 = source.items ∧ ending = source.ending ∧ source.Times := by
  induction turns generalizing source with
  | zero => exact absurd ended (by simp [withKeepalive])
  | succ turns ih =>
    obtain ⟨events, last, ending'⟩ := source
    match events, last, ending' with
    | (silence + 1, ev) :: events, last, ending' =>
      obtain ⟨items, same, times⟩ := @ih ⟨(silence, ev) :: events, last, ending'⟩ ended
      exact ⟨(congrArg (StreamItem.keepalive :: ·) items).trans (items_wait _ _ _ _ _).symm, same,
        times⟩
    | (0, ev) :: events, last, ending' =>
      obtain ⟨items, same, times⟩ := @ih ⟨events, last, ending'⟩ ended
      exact ⟨(congrArg (StreamItem.event ev :: ·) items).trans (items_event _ _ _ _).symm, same,
        times⟩
    | [], last + 1, ending' =>
      obtain ⟨items, same, times⟩ := @ih ⟨[], last, ending'⟩ ended
      exact ⟨(congrArg (StreamItem.keepalive :: ·) items).trans (items_silence _ _).symm, same, times⟩
    | [], 0, .exhausted => exact ⟨rfl, (Option.some.inj ended).symm, fun message => by simp⟩
    | [], 0, .raised (.generation message code) =>
      exact ⟨rfl, (Option.some.inj ended).symm, fun message => by simp⟩
    | [], 0, .raised (.other message) =>
      exact ⟨rfl, (Option.some.inj ended).symm, fun message => by simp⟩
    | [], 0, .raised (.timeout message) =>
      obtain ⟨-, -, times⟩ := @ih ⟨[], 0, .raised (.timeout message)⟩ ended
      exact absurd rfl (times message)

theorem withKeepalive_prefix (turns : Nat) (times : source.Times) :
    (withKeepalive turns source).1 <+: source.items := by
  induction turns generalizing source with
  | zero => exact List.nil_prefix
  | succ turns ih =>
    obtain ⟨events, last, ending⟩ := source
    match events, last, ending with
    | (silence + 1, ev) :: events, last, ending =>
      rw [items_wait]
      exact List.cons_prefix_cons.mpr ⟨rfl, @ih ⟨(silence, ev) :: events, last, ending⟩ times⟩
    | (0, ev) :: events, last, ending =>
      rw [items_event]
      exact List.cons_prefix_cons.mpr ⟨rfl, @ih ⟨events, last, ending⟩ times⟩
    | [], last + 1, ending =>
      rw [items_silence]
      exact List.cons_prefix_cons.mpr ⟨rfl, @ih ⟨[], last, ending⟩ times⟩
    | [], 0, .exhausted => exact List.nil_prefix
    | [], 0, .raised (.generation message code) => exact List.nil_prefix
    | [], 0, .raised (.other message) => exact List.nil_prefix
    | [], 0, .raised (.timeout message) => exact absurd rfl (times message)

theorem exists_withKeepalive (times : source.Times) :
    ∃ turns, withKeepalive turns source = (source.items, some source.ending) := by
  obtain ⟨events, last, ending⟩ := source
  induction events with
  | nil =>
    induction last with
    | zero =>
      refine ⟨1, ?_⟩
      match ending with
      | .exhausted => rfl
      | .raised (.generation message code) => rfl
      | .raised (.other message) => rfl
      | .raised (.timeout message) => exact absurd rfl (times message)
    | succ last ih =>
      obtain ⟨turns, run⟩ := ih times
      refine ⟨turns + 1, ?_⟩
      rw [withKeepalive, run, items_silence]
  | cons head events ih =>
    obtain ⟨silence, ev⟩ := head
    induction silence with
    | zero =>
      obtain ⟨turns, run⟩ := ih times
      refine ⟨turns + 1, ?_⟩
      rw [withKeepalive, run, items_event]
    | succ silence later =>
      obtain ⟨turns, run⟩ := later times
      refine ⟨turns + 1, ?_⟩
      rw [withKeepalive, run, items_wait]

def StreamItem.Going : StreamItem → Prop
  | .keepalive => True
  | .event ev => ev.isDone = false

theorem EventStream.Ended.going {source : EventStream} (ended : source.Ended) :
    (∃ items done, source.ending = .exhausted ∧ done.isDone = true ∧
        source.items = items ++ .event done :: List.replicate source.silence .keepalive ∧
          ∀ item ∈ items, item.Going) ∨
      ∃ error, source.ending = .raised error ∧ ∀ item ∈ source.items, item.Going := by
  have going : ∀ events : List (Nat × GenEvent), (∀ ev ∈ events, ev.2.isDone = false) →
      ∀ item ∈ events.flatMap (fun (silence, ev) =>
        List.replicate silence .keepalive ++ [StreamItem.event ev]), item.Going := by
    intro events none_ item mem
    obtain ⟨⟨silence, ev⟩, mem, within⟩ := List.mem_flatMap.mp mem
    rcases List.mem_append.mp within with wait | here
    · rw [List.eq_of_mem_replicate wait]
      trivial
    · rw [List.mem_singleton.mp here]
      exact none_ _ mem
  obtain ⟨events, last, ending⟩ := source
  cases ending with
  | exhausted =>
    left
    obtain ⟨before, silence, done, same, isDone, none_⟩ := ended
    obtain rfl : events = before ++ [(silence, done)] := same
    refine ⟨before.flatMap (fun (silence, ev) => List.replicate silence .keepalive ++ [.event ev]) ++
      List.replicate silence .keepalive, done, rfl, isDone, ?_, ?_⟩
    · simp [EventStream.items]
    · intro item mem
      rcases List.mem_append.mp mem with mem | mem
      · exact going before none_ item mem
      · rw [List.eq_of_mem_replicate mem]
        trivial
  | raised error =>
    refine .inr ⟨error, rfl, fun item mem => ?_⟩
    rcases List.mem_append.mp mem with mem | mem
    · exact going events ended item mem
    · rw [List.eq_of_mem_replicate mem]
      trivial

/-! ## Formatters -/

section
variable {σ φ P : Type}

/-- The frames of some items, one after the other. -/
def formatAll (handle : StreamItem → σ → σ × List φ) : List StreamItem → σ → σ × List φ
  | [], s => (s, [])
  | item :: items, s =>
    let (s, frames) := handle item s
    let (s, more) := formatAll handle items s
    (s, frames ++ more)

theorem formatAll_append (handle : StreamItem → σ → σ × List φ) (items items' : List StreamItem)
    (s : σ) :
    formatAll handle (items ++ items') s =
      ((formatAll handle items' (formatAll handle items s).1).1,
        (formatAll handle items s).2 ++ (formatAll handle items' (formatAll handle items s).1).2) := by
  induction items generalizing s with
  | nil => rfl
  | cons item items ih =>
    simp only [List.cons_append, formatAll, ih, List.append_assoc]

/-- Frames that lead from the phase of a state to that of another. -/
def Advances (advance : P → φ → Option P) (phase : σ → P) (s : σ) (step : σ × List φ) : Prop :=
  step.2.foldlM advance (phase s) = some (phase step.1)

variable {advance : P → φ → Option P}

variable {phase : σ → P}

theorem Advances.refl (s : σ) :
    Advances advance phase s (s, []) := rfl

theorem Advances.trans {s s' s'' : σ}
    {frames more : List φ} (first : Advances advance phase s (s', frames))
    (second : Advances advance phase s' (s'', more)) :
    Advances advance phase s (s'', frames ++ more) := by
  unfold Advances at *
  rw [List.foldlM_append, first]
  exact second

/-- The state of a formatter says which phase of the grammar its frames have reached, when every item
keeps it. -/
theorem formatAll_phase {handle : StreamItem → σ → σ × List φ} {advance : P → φ → Option P}
    {items : List StreamItem}
    (step : ∀ item ∈ items, ∀ s, Advances advance phase s (handle item s)) (s : σ) :
    Advances advance phase s (formatAll handle items s) := by
  induction items generalizing s with
  | nil => exact Advances.refl s
  | cons item items ih =>
    apply Advances.trans (step item List.mem_cons_self s)
    exact ih (fun item' mem => step item' (List.mem_cons_of_mem _ mem)) _

/-- A formatter: a state, the frames before the first item, those of an item, and those of what ends the
items. -/
structure Formatter (σ φ : Type) where
  prologue : List φ
  start : σ
  handle : StreamItem → σ → σ × List φ
  finish : Ending → σ → List φ

namespace Formatter

def frames (formatter : Formatter σ φ) (items : List StreamItem) (ended : Option Ending) : List φ :=
  let (s, frames) := formatAll formatter.handle items formatter.start
  formatter.prologue ++ frames ++ (ended.map (formatter.finish · s)).getD []

variable (formatter : Formatter σ φ)

/-- The frames that are sent in so many turns of the loop around the events, and whether the stream
has ended. -/
def stream (source : EventStream) (turns : Nat) : List φ × Bool :=
  let (items, ended) := withKeepalive turns source
  (formatter.frames items ended, ended.isSome)

/-- The frames of a stream follow a grammar, which gives the phase behind a frame when it may be sent:
at all times they lead somewhere, once the stream has ended they have led to the last phase, and the
stream ends. -/
def WellFormed (advance : P → φ → Option P) (fresh last : P)
    (source : EventStream) : Prop :=
  (∀ turns, ∃ phase, (formatter.stream source turns).1.foldlM advance fresh = some phase ∧
    ((formatter.stream source turns).2 = true → phase = last)) ∧
  ∃ turns, (formatter.stream source turns).2 = true

/-- What a formatter has to do for its streams to follow a grammar. -/
structure Keeps (advance : P → φ → Option P) (fresh last : P)
    (phase : σ → P) : Prop where
  begins : formatter.prologue.foldlM advance fresh = some (phase formatter.start)
  going : ∀ item s, item.Going → Advances advance phase s (formatter.handle item s)
  done : ∀ ev s, ev.isDone = true →
    (formatter.handle (.event ev) s).2.foldlM advance (phase s) = some last
  exhausted : ∀ s, formatter.finish .exhausted s = []
  raised : ∀ error s, (formatter.finish (.raised error) s).foldlM advance (phase s) = some last
  keepalive : ∀ s, (formatter.handle .keepalive s).2 ≠ []
  stops : ∀ frame, advance last frame = none

variable {formatter : Formatter σ φ} {advance : P → φ → Option P} {fresh last : P} {phase : σ → P}

variable {items : List StreamItem}

theorem Keeps.frames_going (keeps : formatter.Keeps advance fresh last phase)
    (going : ∀ item ∈ items, item.Going) :
    (formatter.frames items none).foldlM advance fresh =
      some (phase (formatAll formatter.handle items formatter.start).1) := by
  simp only [frames, Option.map_none, Option.getD_none, List.append_nil, List.foldlM_append,
    keeps.begins]
  exact formatAll_phase (fun item mem s => keeps.going item s (going item mem)) _

theorem Keeps.frames_raised (keeps : formatter.Keeps advance fresh last phase)
    (going : ∀ item ∈ items, item.Going) (error : StreamError) :
    (formatter.frames items (some (.raised error))).foldlM advance fresh = some last := by
  have before := keeps.frames_going going
  simp only [frames, Option.map_none, Option.getD_none, List.append_nil] at before
  simp only [frames, Option.map_some, Option.getD_some]
  rw [List.foldlM_append, before]
  exact keeps.raised error _

theorem Keeps.frames_done (keeps : formatter.Keeps advance fresh last phase)
    (going : ∀ item ∈ items, item.Going) {done : GenEvent} (isDone : done.isDone = true) :
    (formatter.frames (items ++ [.event done]) none).foldlM advance fresh = some last := by
  have before := keeps.frames_going going
  simp only [frames, Option.map_none, Option.getD_none, List.append_nil] at before ⊢
  rw [formatAll_append, ← List.append_assoc, List.foldlM_append, before]
  simp only [formatAll, List.append_nil]
  exact keeps.done done _ isDone

theorem Keeps.frames_exhausted (keeps : formatter.Keeps advance fresh last phase)
    (items : List StreamItem) :
    formatter.frames items (some .exhausted) = formatter.frames items none := by
  simp [frames, keeps.exhausted]

theorem Keeps.frames_behind (keeps : formatter.Keeps advance fresh last phase)
    (going : ∀ item ∈ items, item.Going) {done : GenEvent}
    (isDone : done.isDone = true) (later : List StreamItem) :
    (formatter.frames (items ++ .event done :: .keepalive :: later) none).foldlM advance fresh =
      none := by
  have before := keeps.frames_done going isDone
  rw [show items ++ .event done :: .keepalive :: later =
    (items ++ [.event done]) ++ .keepalive :: later by simp]
  simp only [frames, Option.map_none, Option.getD_none, List.append_nil] at before ⊢
  rw [formatAll_append, ← List.append_assoc, List.foldlM_append, before]
  obtain ⟨frame, more, shown⟩ := List.exists_cons_of_ne_nil (keeps.keepalive
    (formatAll formatter.handle (items ++ [.event done]) formatter.start).1)
  simp only [formatAll, shown]
  show (advance last frame).bind _ = none
  rw [keeps.stops]
  rfl

theorem Keeps.wellFormed_iff (keeps : formatter.Keeps advance fresh last phase) {source : EventStream}
    (ended : source.Ended) :
    formatter.WellFormed advance fresh last source ↔ source.Times ∧ source.Prompt := by
  constructor
  · rintro ⟨always, turns, ends⟩
    obtain ⟨ending, hasEnded⟩ := Option.isSome_iff_exists.mp ends
    obtain ⟨items, rfl, times⟩ := withKeepalive_ended hasEnded
    refine ⟨times, fun exhausted => ?_⟩
    obtain ⟨phase', follows, -⟩ := always turns
    simp only [stream, hasEnded, items, exhausted, keeps.frames_exhausted] at follows
    rcases ended.going with ⟨before, done, -, isDone, same, going⟩ | ⟨error, raised, -⟩
    · match silent : source.silence with
      | 0 => rfl
      | silence + 1 =>
        rw [same, silent, List.replicate_succ, keeps.frames_behind going isDone] at follows
        exact absurd follows (by simp)
    · exact absurd exhausted (by simp [raised])
  · rintro ⟨times, prompt⟩
    obtain ⟨enough, run⟩ := exists_withKeepalive times
    refine ⟨fun turns => ?_, enough, by simp [stream, run]⟩
    have handed := withKeepalive_prefix turns times
    match hasEnded : (withKeepalive turns source).2 with
    | none =>
      simp only [stream, hasEnded, Option.isSome_none, Bool.false_eq_true, false_implies, and_true]
      rcases ended.going with ⟨before, done, exhausted, isDone, same, going⟩ | ⟨error, -, going⟩
      · rw [same, prompt exhausted, List.replicate_zero] at handed
        rcases List.prefix_concat_iff.mp handed with whole | part
        · exact ⟨last, by rw [whole, keeps.frames_done going isDone]⟩
        · exact ⟨_, keeps.frames_going fun item mem => going item (part.subset mem)⟩
      · exact ⟨_, keeps.frames_going fun item mem => going item (handed.subset mem)⟩
    | some ending =>
      obtain ⟨items, rfl, -⟩ := withKeepalive_ended hasEnded
      simp only [stream, hasEnded, items]
      refine ⟨last, ?_, fun _ => rfl⟩
      rcases ended.going with ⟨before, done, exhausted, isDone, same, going⟩ | ⟨error, raised, going⟩
      · rw [exhausted, keeps.frames_exhausted, same, prompt exhausted]
        exact keeps.frames_done going isDone
      · rw [raised]
        exact keeps.frames_raised going error

end Formatter

end

end FreeSwarm.Server
