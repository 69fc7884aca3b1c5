import FreeSwarm.Server.MuseGlimmerRounds

/-!
# A Muse Glimmer stream and its one-shot parse

The drain that ends a stream gives a meaning to any buffer. A drain before the end keeps that
meaning: what it gives away and the meaning of what it leaves are the meaning of what it found,
whatever text follows. So a stream gives the same for every cutting of a text, and a parse at once
is a stream of one piece.
-/

namespace FreeSwarm.Server

open FreeSwarm.Foundation

namespace MuseGlimmerReasoningParser

section
variable {p : MuseGlimmerReasoningParser} {final : Bool} {front rest text ext : List Char}
  {pieces : List (List Char)} {kind : BodyEnd} {d : Nat}

/-! ## The drain ends -/

theorem grown_nil (p : MuseGlimmerReasoningParser) : p.grown [] = p := by simp [grown]

theorem measure_next (more : (p.round final).again = true) :
    (p.round final).next.measure < p.measure := by
  obtain ⟨k, -, kindOf, -⟩ := round_cases p
  cases kindOf with
  | again same _ _ less =>
    have this := same [] final
    rw [grown_nil] at this
    rw [this]
    change ((p.round false).next.grown []).measure < p.measure
    rwa [grown_nil]
  | stop _ ends _ =>
    rw [ends] at more
    exact absurd more (by simp)

theorem drainLoop_eq {rounds rounds' : Nat} (enough : p.measure < rounds)
    (enough' : p.measure < rounds') : drainLoop final rounds p = drainLoop final rounds' p := by
  induction rounds generalizing p rounds' with
  | zero => exact absurd enough (Nat.not_lt_zero _)
  | succ rounds ih =>
    cases rounds' with
    | zero => exact absurd enough' (Nat.not_lt_zero _)
    | succ rounds' =>
      rw [drainLoop, drainLoop]
      split_ifs with empty
      · rfl
      · simp only
        split_ifs with more
        · have less := measure_next more
          rw [@ih (p.round final).next rounds' (by omega) (by omega)]
        · rfl

theorem drainLoop_isSome {rounds : Nat} (enough : p.measure < rounds) :
    ∃ r, drainLoop final rounds p = some r := by
  induction rounds generalizing p with
  | zero => exact absurd enough (Nat.not_lt_zero _)
  | succ rounds ih =>
    rw [drainLoop]
    split_ifs with empty
    · exact ⟨_, rfl⟩
    · simp only
      split_ifs with more
      · have less := measure_next more
        obtain ⟨r, ends⟩ := @ih (p.round final).next (by omega)
        exact ⟨_, by rw [ends, Option.map_some]⟩
      · exact ⟨_, rfl⟩

theorem measure_lt_roundBound (p : MuseGlimmerReasoningParser) : p.measure < p.roundBound :=
  Nat.lt_succ_self _

theorem drainLoop_eq_drain {rounds : Nat} (enough : p.measure < rounds) :
    drainLoop final rounds p = some (p.drain final) := by
  obtain ⟨r, ends⟩ := @drainLoop_isSome p final p.roundBound p.measure_lt_roundBound
  rw [drainLoop_eq enough p.measure_lt_roundBound, drain, ends]
  rfl

theorem drain_eq (p : MuseGlimmerReasoningParser) (final : Bool) :
    p.drain final =
      if p.buffer = [] then (p, .empty)
      else if (p.round final).again then
        (((p.round final).next.drain final).1,
          (p.round final).out ++ ((p.round final).next.drain final).2)
      else ((p.round final).next, (p.round final).out) := by
  have loop := @drainLoop_eq_drain p final (p.measure + 1) (Nat.lt_succ_self _)
  rw [drainLoop] at loop
  by_cases empty : p.buffer = []
  · rw [if_pos empty] at loop ⊢
    exact (Option.some.inj loop).symm
  · rw [if_neg empty] at loop ⊢
    by_cases more : (p.round final).again = true
    · simp only [more, if_true, drainLoop_eq_drain (measure_next more), Option.map_some] at loop
      rw [if_pos more]
      exact (Option.some.inj loop).symm
    · simp only [more] at loop
      rw [if_neg more]
      exact (Option.some.inj loop).symm

/-! ## The meaning of a buffer -/

/-- What the end of the stream makes of the buffer. -/
def fin (p : MuseGlimmerReasoningParser) : ReasoningParseResult := (p.drain true).2

theorem fin_of_empty (empty : p.buffer = []) : p.fin = .empty := by
  rw [fin, drain_eq, if_pos empty]

theorem fin_of_round (some_ : p.buffer ≠ []) :
    p.fin = (p.round true).out ++ (if (p.round true).again then (p.round true).next.fin else .empty) := by
  rw [fin, drain_eq, if_neg some_]
  split_ifs
  · rfl
  · change _ = ReasoningParseResult.mk _ _
    simp [ReasoningParseResult.empty]

/-- No closing marker is formed around removed ones. -/
def Unnested (text : List Char) : Prop :=
  ∀ tok ∈ atemClosingTokens, ¬ tok <:+: removeMarks atemClosingTokens text

theorem Unnested.of_append (unnested : Unnested (front ++ rest))
    (cuts : CutsNone atemAllTokens front rest) : Unnested front ∧ Unnested rest := by
  have both := removeMarks_append headed_atemClosingTokens (cuts.subset atemClosing_mem)
  constructor
  · intro tok mem occurs
    refine unnested tok mem ?_
    rw [both]
    exact occurs.trans (List.prefix_append _ _).isInfix
  · intro tok mem occurs
    refine unnested tok mem ?_
    rw [both]
    exact occurs.trans (List.suffix_append _ _).isInfix

theorem emitSeek_eq (unnested : Unnested text) :
    emitSeek text = ⟨[], removeMarks atemClosingTokens text⟩ := by
  rw [emitSeek, dropClosers, foldl_removeAll headed_atemClosingTokens unnested]

theorem emitSeek_append (cuts : CutsNone atemAllTokens front rest)
    (unnested : Unnested (front ++ rest)) :
    emitSeek (front ++ rest) = emitSeek front ++ emitSeek rest := by
  obtain ⟨first, second⟩ := unnested.of_append cuts
  rw [emitSeek_eq unnested, emitSeek_eq first, emitSeek_eq second,
    removeMarks_append headed_atemClosingTokens (cuts.subset atemClosing_mem)]
  rfl

theorem emit_append (recipient front rest : List Char) :
    emit recipient (front ++ rest) = emit recipient front ++ emit recipient rest := by
  rw [emit, emit, emit]
  split_ifs <;> rfl

theorem endAt_append_iff : EndAt (front ++ rest) (front.length + d) kind ↔ EndAt rest d kind := by
  have shift : (front ++ rest).drop (front.length + d) = rest.drop d := by
    rw [← List.drop_drop, List.drop_left]
  cases kind <;> simp only [EndAt, shift]

theorem EndAt.behind (at_ : EndAt (front ++ rest) d kind) (beyond : front.length ≤ d) :
    EndAt rest (d - front.length) kind := by
  refine (@endAt_append_iff front rest kind _).mp ?_
  rwa [Nat.add_sub_cancel' beyond]

/-- Nothing starts in a quiet beginning or before the first thing behind it. -/
theorem Quiet.append_left {mode : AtemMode} {n : Nat}
    (quiet : Quiet mode (front ++ rest) front.length) (later : Quiet mode rest n) :
    Quiet mode (front ++ rest) (front.length + n) := by
  intro d below kind seen at_
  by_cases inside : d < front.length
  · exact quiet d inside kind seen at_
  · exact later (d - front.length) (by omega) kind seen (at_.behind (by omega))

def Round.behind (given : ReasoningParseResult) (r : Round) : Round := { r with out := given ++ r.out }

/-- The first part of a text between segments, up to what a round goes by. -/
theorem emitSeek_take (cuts : CutsNone atemAllTokens front rest) (unnested : Unnested (front ++ rest))
    {pos : Nat} (at_ : EndAt rest pos kind) :
    emitSeek ((front ++ rest).take (front.length + pos)) =
      emitSeek front ++ emitSeek (rest.take pos) := by
  have inside := at_.lt
  have grown : EndAt (front ++ rest) (front.length + pos) kind := endAt_append_iff.mpr at_
  have later := cutsNone_at grown []
  rw [List.append_nil] at later
  have part := (@Unnested.of_append ((front ++ rest).take (front.length + pos))
    ((front ++ rest).drop (front.length + pos))
    (by rw [List.take_append_drop]; exact unnested) later).1
  have split : (front ++ rest).take (front.length + pos) = front ++ rest.take pos := by
    rw [List.take_append, List.take_of_length_le (by omega)]
    congr 2
    omega
  rw [split] at part ⊢
  refine emitSeek_append (fun tok mem d below occurs => ?_) part
  refine cuts tok mem d below ?_
  rw [List.drop_append_of_le_length below.le] at occurs ⊢
  exact occurs.trans ((List.prefix_append_right_inj _).mpr (List.take_prefix _ _))

theorem round_behind (buffer : p.buffer = front ++ rest) (cuts : CutsNone atemAllTokens front rest)
    (quiet : Quiet p.mode (front ++ rest) front.length) (unnested : Unnested (front ++ rest)) :
    p.round true = ({ p with buffer := rest }.round true).behind (p.give front) := by
  obtain ⟨headerOpen, buf, synthetic, mode, recipient⟩ := p
  obtain rfl : buf = front ++ rest := buffer
  have dropped : ∀ n, (front ++ rest).drop (front.length + n) = rest.drop n := fun n => by
    rw [← List.drop_drop, List.drop_left]
  cases mode with
  | seek =>
    rcases seek_cases rest with ⟨s, at_, later⟩ | ⟨pos, name, at_, later⟩ | later
    · have given := emitSeek_take cuts unnested at_
      have left := @seekRound_start ⟨headerOpen, front ++ rest, synthetic, .seek, recipient⟩ _ true
        (endAt_append_iff.mpr at_) (quiet.append_left later)
      have right := @seekRound_start ⟨headerOpen, rest, synthetic, .seek, recipient⟩ _ true at_ later
      simp only [round, left, right, give]
      have releases : release ⟨headerOpen, front ++ rest, synthetic, .seek, recipient⟩
          (front.length + s) =
          (release ⟨headerOpen, rest, synthetic, .seek, recipient⟩ s).behind (emitSeek front) := by
        simp only [release, Round.behind, given, Nat.add_assoc, dropped,
          ReasoningParseResult.append_assoc]
      simp only [startRound, Nat.add_assoc, dropped, releases, given]
      cases findSub atemMessage (rest.drop (s + atemStart.length)) with
      | none =>
        simp only [Option.getD_none]
        split_ifs
        · rfl
        · rfl
        · simp only [Round.behind, ReasoningParseResult.append_assoc]
      | some span =>
        simp only [Option.getD_some]
        split_ifs
        · rfl
        · rfl
        · simp only [Round.behind, ReasoningParseResult.append_assoc]
    · have given := emitSeek_take cuts unnested at_
      have left := @seekRound_switch ⟨headerOpen, front ++ rest, synthetic, .seek, recipient⟩ _ _ true
        (endAt_append_iff.mpr at_) (quiet.append_left later)
      have right := @seekRound_switch ⟨headerOpen, rest, synthetic, .seek, recipient⟩ _ _ true at_
        later
      simp only [round, left, right, give, switchRound, given, Nat.add_assoc, dropped, Round.behind,
        ReasoningParseResult.append_assoc]
    · have left := @seekRound_wait ⟨headerOpen, front ++ rest, synthetic, .seek, recipient⟩ true
        fun n => (quiet.append_left (later n)).mono (by omega)
      have right := @seekRound_wait ⟨headerOpen, rest, synthetic, .seek, recipient⟩ true later
      simp only [round, left, right, give, waitRound, holdLen, if_true, Nat.sub_zero,
        List.take_length, List.drop_length, Round.behind, emitSeek_append cuts unnested]
  | body =>
    cases found : segmentBodyEnd rest with
    | mk stop matched =>
      cases matched with
      | none =>
        have free := segmentBodyEnd_none found
        have free' : ∀ d kind, ¬ EndAt (front ++ rest) d kind := by
          intro d kind at_
          by_cases inside : d < front.length
          · exact quiet d inside kind trivial at_
          · exact free _ kind (at_.behind (by omega))
        have none_ := segmentBodyEnd_free free'
        simp only [round, bodyRound, none_, found, give, waitRound, holdLen, if_true, Nat.sub_zero,
          List.take_length, List.drop_length, Round.behind, emit_append]
      | some kind =>
        obtain ⟨at_, later⟩ := segmentBodyEnd_spec found
        have found' : segmentBodyEnd (front ++ rest) = (front.length + stop, some kind) :=
          segmentBodyEnd_eq (endAt_append_iff.mpr at_) fun d below kind' =>
            @Quiet.append_left _ _ .body _ quiet (fun d below kind _ => later d below kind) d below kind'
              trivial
        have taken : (front ++ rest).take (front.length + stop) = front ++ rest.take stop := by
          rw [List.take_append, List.take_of_length_le (by omega)]
          congr 2
          omega
        have tooled : ∀ (c : Prop) [Decidable c] (body last : List Char),
            emit recipient (if c then front ++ body ++ last else front ++ body) =
              emit recipient front ++ emit recipient (if c then body ++ last else body) := by
          intro c _ body last
          rw [← emit_append]
          split_ifs
          · rw [List.append_assoc]
          · rfl
        cases kind with
        | closer tok =>
          simp only [round, bodyRound, found, found', taken, give, tooled, Nat.add_assoc, dropped,
            Round.behind]
        | start =>
          simp only [round, bodyRound, found, found', taken, give, tooled, dropped, Round.behind]
        | inline name =>
          simp only [round, bodyRound, found, found', taken, give, tooled, switchRound,
            Nat.add_assoc, dropped, Round.behind, ReasoningParseResult.append_assoc]

theorem fin_behind (buffer : p.buffer = front ++ rest) (cuts : CutsNone atemAllTokens front rest)
    (quiet : Quiet p.mode (front ++ rest) front.length) (unnested : Unnested (front ++ rest)) :
    p.fin = p.give front ++ fin { p with buffer := rest } := by
  have round_ := round_behind buffer cuts quiet unnested
  have nothing : p.give [] = .empty := by
    rw [give]
    cases p.mode with
    | seek => rfl
    | body =>
      simp only [emit]
      split_ifs <;> rfl
  by_cases some_ : p.buffer = []
  · obtain ⟨rfl, rfl⟩ := List.append_eq_nil_iff.mp (buffer.symm.trans some_)
    rw [fin_of_empty some_, fin_of_empty rfl, nothing]
    rfl
  · rw [fin_of_round some_, round_]
    by_cases some' : rest = []
    · subst some'
      have last : { p with buffer := [] }.round true =
          { next := { p with buffer := [] }, out := p.give [], again := false } := by
        obtain ⟨headerOpen, buf, synthetic, mode, recipient⟩ := p
        cases mode <;> rfl
      rw [last, @fin_of_empty { p with buffer := [] } rfl, Round.behind]
      simp only [nothing, Bool.false_eq_true, if_false]
      exact ReasoningParseResult.append_assoc _ _ _
    · rw [@fin_of_round { p with buffer := rest } some']
      exact ReasoningParseResult.append_assoc _ _ _

/-! ## Every cutting gives the same -/

theorem drain_rest (p : MuseGlimmerReasoningParser) :
    ∃ front, p.buffer = front ++ (p.drain false).1.buffer ∧
      ∀ ext, CutsNone atemAllTokens front ((p.drain false).1.buffer ++ ext) := by
  have general : ∀ n (p : MuseGlimmerReasoningParser), p.measure = n →
      ∃ front, p.buffer = front ++ (p.drain false).1.buffer ∧
        ∀ ext, CutsNone atemAllTokens front ((p.drain false).1.buffer ++ ext) := by
    intro n
    induction n using Nat.strong_induction_on with
    | _ n ih =>
      rintro p rfl
      rw [drain_eq]
      by_cases empty : p.buffer = []
      · rw [if_pos empty]
        exact ⟨[], rfl, fun ext tok mem d below => absurd below (Nat.not_lt_zero d)⟩
      · rw [if_neg empty]
        obtain ⟨k, -, kindOf, cuts⟩ := round_cases p
        cases kindOf with
        | again _ more rest less =>
          rw [if_pos more]
          obtain ⟨front, whole, later⟩ := ih _ less _ rfl
          refine ⟨p.buffer.take k ++ front, ?_, fun ext => ?_⟩
          · rw [List.append_assoc, ← whole, rest, List.take_append_drop]
          · refine CutsNone.append ?_ (later ext)
            rw [← List.append_assoc, ← whole, rest]
            exact cuts ext
        | stop here _ _ =>
          rw [here]
          exact ⟨p.buffer.take k, (List.take_append_drop _ _).symm, cuts⟩
  exact general p.measure p rfl

/-- A text whose streams do not depend on how it is cut: no headerless switch in it names a recipient
with `to=` in the name, and no closing marker is formed around removed ones. -/
structure Regular (text : List Char) : Prop where
  plain : NamesPlain text
  unnested : Unnested text

theorem Regular.behind (regular : Regular (front ++ rest)) (cuts : CutsNone atemAllTokens front rest) :
    Regular rest :=
  ⟨regular.plain.of_append, (regular.unnested.of_append cuts).2⟩

/-- A drain gives away part of the meaning of the buffer, whatever text follows. -/
theorem fin_grown (regular : Regular (p.buffer ++ ext)) :
    (p.grown ext).fin = (p.drain false).2 ++ ((p.drain false).1.grown ext).fin := by
  have general : ∀ n (p : MuseGlimmerReasoningParser), p.measure = n → Regular (p.buffer ++ ext) →
      (p.grown ext).fin = (p.drain false).2 ++ ((p.drain false).1.grown ext).fin := by
    intro n
    induction n using Nat.strong_induction_on with
    | _ n ih =>
      rintro p rfl regular
      rw [drain_eq]
      by_cases empty : p.buffer = []
      · rw [if_pos empty]
        rfl
      · rw [if_neg empty]
        obtain ⟨k, inside, kindOf, cuts⟩ := round_cases p
        cases kindOf with
        | again same more rest less =>
          have longer : (p.grown ext).buffer ≠ [] := fun nil =>
            empty (List.append_eq_nil_iff.mp nil).1
          have later : Regular ((p.round false).next.buffer ++ ext) := by
            rw [rest]
            refine @Regular.behind (p.buffer.take k) _ ?_ (cuts ext)
            rwa [← List.append_assoc, List.take_append_drop]
          have out : ((p.round false).grown ext).out = (p.round false).out := rfl
          have next : ((p.round false).grown ext).next = (p.round false).next.grown ext := rfl
          have again : ((p.round false).grown ext).again = true := more
          rw [if_pos more, fin_of_round longer, same, again, if_pos rfl, out, next,
            ih _ less _ rfl later, ReasoningParseResult.append_assoc]
        | stop here _ quiet =>
          rw [here]
          simp only [Bool.false_eq_true, if_false]
          have whole : (p.grown ext).buffer = p.buffer.take k ++ (p.buffer.drop k ++ ext) := by
            rw [← List.append_assoc, List.take_append_drop]
            rfl
          have size : (p.buffer.take k).length = k := by
            rw [List.length_take]
            omega
          refine fin_behind (p := p.grown ext) whole (cuts ext) ?_ ?_
          · rw [← List.append_assoc, List.take_append_drop, size]
            exact quiet ext regular.plain
          · rw [← List.append_assoc, List.take_append_drop]
            exact regular.unnested
  exact general p.measure p rfl regular

theorem stream_eq_fin (regular : Regular (p.buffer ++ pieces.flatten)) :
    p.stream pieces = (p.grown pieces.flatten).fin := by
  induction pieces generalizing p with
  | nil =>
    rw [List.flatten_nil, grown_nil]
    rfl
  | cons piece pieces ih =>
    rw [List.flatten_cons, ← List.append_assoc] at regular
    obtain ⟨front, whole, cuts⟩ := drain_rest (p.grown piece)
    have later : Regular ((p.parseStreamingIncrement piece).1.buffer ++ pieces.flatten) := by
      refine @Regular.behind front _ ?_ (cuts _)
      rw [← List.append_assoc]
      change Regular (front ++ ((p.grown piece).drain false).1.buffer ++ pieces.flatten)
      rw [← whole]
      exact regular
    have step := @fin_grown (p.grown piece) pieces.flatten regular
    rw [stream, ih later]
    refine step.symm.trans ?_
    simp only [grown, List.flatten_cons, List.append_assoc]

def feed (p : MuseGlimmerReasoningParser) (pieces : List (List Char)) : MuseGlimmerReasoningParser :=
  pieces.foldl (fun p piece => (p.parseStreamingIncrement piece).1) p

/-- What a stream has given away so far ends between markers, whatever follows. -/
theorem feed_cutsNone (p : MuseGlimmerReasoningParser) (pieces : List (List Char)) :
    ∃ front, p.buffer ++ pieces.flatten = front ++ (p.feed pieces).buffer ∧
      ∀ ext, CutsNone atemAllTokens front ((p.feed pieces).buffer ++ ext) := by
  induction pieces generalizing p with
  | nil =>
    exact ⟨[], by simp [feed], fun ext tok mem d below => absurd below (Nat.not_lt_zero d)⟩
  | cons piece pieces ih =>
    obtain ⟨front, whole, cuts⟩ := drain_rest (p.grown piece)
    obtain ⟨front', whole', cuts'⟩ := ih ((p.parseStreamingIncrement piece).1)
    refine ⟨front ++ front', ?_, fun ext => ?_⟩
    · have first : p.buffer ++ piece = front ++ (p.parseStreamingIncrement piece).1.buffer := whole
      rw [List.flatten_cons, ← List.append_assoc, first, List.append_assoc, whole',
        List.append_assoc]
      rfl
    · refine CutsNone.append ?_ (cuts' ext)
      have later : front' ++ ((p.feed (piece :: pieces)).buffer ++ ext) =
          (p.parseStreamingIncrement piece).1.buffer ++ (pieces.flatten ++ ext) := by
        rw [← List.append_assoc, ← List.append_assoc, whole']
        rfl
      rw [later]
      exact cuts _

/-! ## The one-shot parse -/

theorem fin_of_free {headerOpen : Bool} (free : ∀ tok ∈ atemAllTokens, ¬ tok <:+: text) :
    ((create headerOpen).grown text).fin = ⟨[], text⟩ := by
  have noClosers : dropClosers text = text := by
    have general : ∀ toks : List (List Char), (∀ tok ∈ toks, ¬ tok <:+: text) →
        toks.foldl (fun piece tok => removeAll tok piece) text = text := by
      intro toks
      induction toks with
      | nil => exact fun _ => rfl
      | cons tok toks ih =>
        intro free
        rw [List.foldl_cons, removeAll_of_free (free tok List.mem_cons_self)]
        exact ih fun tok' mem => free tok' (List.mem_cons_of_mem _ mem)
    exact general atemClosingTokens fun tok mem => free tok (atemClosing_mem tok mem)
  have noEnd : ∀ d kind, ¬ EndAt text d kind := by
    intro d kind at_
    obtain ⟨tok, mem, m, -, here, -⟩ := at_.marker
    exact free tok mem (isInfix_iff_exists_drop.mpr ⟨m, here⟩)
  -- Behind the marker of the prompt the text is looked at as content.
  have content : ∀ synthetic recipient, fin
      ⟨headerOpen, text, synthetic, .seek, recipient⟩ = ⟨[], text⟩ := by
    intro synthetic recipient
    by_cases empty : text = []
    · rw [fin_of_empty empty, empty]
      rfl
    · rw [fin_of_round empty]
      have waits := @seekRound_wait ⟨headerOpen, text, synthetic, .seek, recipient⟩ true
        fun n d _ kind _ => noEnd d kind
      simp only [round, waits, waitRound, holdLen, if_true, Nat.sub_zero, List.take_length,
        emitSeek, noClosers, Bool.false_eq_true, if_false, ReasoningParseResult.empty,
        ReasoningParseResult.mk_append, List.append_nil]
  cases headerOpen with
  | false =>
    have same : (create false).grown text = ⟨false, text, false, .seek, userName⟩ := rfl
    rw [same, content]
  | true =>
    have same : (create true).grown text = ⟨true, atemStart ++ text, true, .seek, userName⟩ := rfl
    have some_ : atemStart ++ text ≠ [] := fun nil =>
      absurd (List.append_eq_nil_iff.mp nil).1 (by decide)
    have here : EndAt (atemStart ++ text) 0 .start := List.prefix_append _ _
    have starts := @seekRound_start ⟨true, atemStart ++ text, true, .seek, userName⟩ 0 true here
      fun d below => absurd below (Nat.not_lt_zero d)
    have noMessage : findSub atemMessage text = none :=
      findSub_eq_none_iff.mpr (free _ atemMessage_mem)
    have noMarker : ¬ atemMarkerInside text := by
      rintro ⟨tok, mem, -, occurs⟩
      exact free tok mem occurs
    have start : (startRound ⟨true, atemStart ++ text, true, .seek, userName⟩ true 0) =
        if atemHeaderSpan + atemMessage.length < text.length then
          { next := ⟨true, text, false, .seek, userName⟩, out := .empty, again := true }
        else
          { next := ⟨true, [], false, .seek, userName⟩, out := ⟨[], text⟩, again := false } := by
      have candidate : (atemStart ++ text).drop (0 + atemStart.length) = text := by
        rw [Nat.zero_add, List.drop_left]
      simp only [startRound, candidate, noMessage, Option.getD_none, List.take_length,
        if_neg noMarker, release, emitSeek, noClosers, List.take_zero, if_true]
      rfl
    rw [same, fin_of_round some_]
    simp only [round, starts, start]
    split_ifs with long again again
    · exact (congrArg (ReasoningParseResult.empty ++ ·) (content false userName))
    · exact absurd rfl again
    · exact absurd again (by simp)
    · change ReasoningParseResult.mk _ _ = _
      simp [ReasoningParseResult.empty]

/-- For every text that is regular behind the prompt's marker, every cutting of it gives the same
reasoning and content, those of the one-shot parse up to the whitespace around each. For every text
and cutting, what a stream has given away before its end ends between markers, whatever follows. A
drain ends on every buffer. -/
theorem stream_sound (headerOpen : Bool) :
    (∀ pieces, Regular ((create headerOpen).buffer ++ pieces.flatten) →
      (create headerOpen).stream pieces = (create headerOpen).stream [pieces.flatten] ∧
        ((create headerOpen).stream pieces).SameTrimmed
          ((create headerOpen).detectAndParse pieces.flatten)) ∧
      (∀ pieces, ∃ front, (create headerOpen).buffer ++ pieces.flatten =
          front ++ ((create headerOpen).feed pieces).buffer ∧
        ∀ ext, CutsNone atemAllTokens front (((create headerOpen).feed pieces).buffer ++ ext)) ∧
      ∀ (p : MuseGlimmerReasoningParser) (final : Bool),
        ∃ r, drainLoop final p.roundBound p = some r := by
  refine ⟨fun pieces regular => ?_, fun pieces => feed_cutsNone _ pieces, fun p final =>
    drainLoop_isSome p.measure_lt_roundBound⟩
  have many := stream_eq_fin regular
  have one := @stream_eq_fin (create headerOpen) [pieces.flatten] (by simpa using regular)
  have whole : [pieces.flatten].flatten = pieces.flatten := by simp
  rw [whole] at one
  refine ⟨many.trans one.symm, ?_⟩
  rw [detectAndParse]
  split_ifs with marked
  · have shot : (create headerOpen).stream [pieces.flatten] =
        ((create headerOpen).parseStreamingIncrement pieces.flatten).2 ++
          ((create headerOpen).parseStreamingIncrement pieces.flatten).1.flush.2 := rfl
    rw [many, ← one, shot]
    exact ⟨(strip_strip _).symm, (strip_strip _).symm⟩
  · have free : ∀ tok ∈ atemAllTokens, ¬ tok <:+: pieces.flatten :=
      fun tok mem occurs => marked ⟨tok, mem, occurs⟩
    rw [many, fin_of_free free]
    exact ⟨rfl, rfl⟩

/-- The end of a text comes out with the marker it breaks off in. A name that holds the opener of a
headerless switch, and closing markers around removed ones, are read by the cuts. -/
theorem stream_depends_on_cuts :
    (create false).stream [" to=user<|message|>hi<|eo".toList] = ⟨[], " hi<|eo".toList⟩ ∧
      (create false).stream [" to=user<|message|>hello to=to=self<|message|>x".toList] =
        ⟨[], " hello to=to=self<|message|>x".toList⟩ ∧
      (create false).stream (" to=user<|message|>hello to=to=self<|message|>x".toList.map fun c => [c]) =
        ⟨"x".toList, " hello to=".toList⟩ ∧
      (create false).stream [" to=user<|message|>hello<|eot|>a<|eo<|eot|>m|>b".toList] =
        ⟨[], " helloab".toList⟩ ∧
      (create false).stream
          (" to=user<|message|>hello<|eot|>a<|eo<|eot|>m|>b".toList.map fun c => [c]) =
        ⟨[], " helloa<|eom|>b".toList⟩ := by
  have broken : " to=user<|message|>hi<|eo".toList = _ := String.toList_ofList
  have headless : " to=user<|message|>hello to=to=self<|message|>x".toList = _ := String.toList_ofList
  have around : " to=user<|message|>hello<|eot|>a<|eo<|eot|>m|>b".toList = _ := String.toList_ofList
  simp only [broken, headless, around]
  with_unfolding_all decide

end

end MuseGlimmerReasoningParser

end FreeSwarm.Server
