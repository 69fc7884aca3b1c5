import FreeSwarm.Server.HarmonyParser

/-!
# A Harmony stream and its one-shot parse

What a scan gives only grows with the text, as long as no tool call is ended by the marker of the
next segment: while such a marker arrives it is taken for a part of the call. For all other texts
with a channel marker, a stream gives the scan of the whole text, whatever its pieces.
-/

namespace FreeSwarm.Server

open FreeSwarm.Foundation

theorem headed_harmonyBoundaryTokens : Headed '<' harmonyBoundaryTokens :=
  ⟨by decide, by decide, by decide⟩

def Opens (text header body : List Char) : Prop :=
  ∃ lead after, splitSub harmonyChannel text = some (lead, after) ∧
    splitSub harmonyMessage after = some (header, body)

/-- A tool call is ended by the marker of the next segment. -/
inductive ToolAbut : List Char → Prop
  | here {text header body tok : List Char} {stop : Nat} (opens : Opens text header body)
      (tool : isTool header = true) (ends : segmentEnd body = (stop, some tok))
      (abuts : tok ∉ closingBoundaryTokens) : ToolAbut text
  | later {text header body tok : List Char} {stop : Nat} (opens : Opens text header body)
      (ends : segmentEnd body = (stop, some tok)) (rest : ToolAbut (body.drop stop)) : ToolAbut text

section
variable {text ext header body tok : List Char} {stop : Nat} {holdPartial : Bool}

/-! ## Segments -/

theorem Opens.replace (opens : Opens text header body) :
    ∃ front, text = front ++ body ∧ harmonyChannel.length + harmonyMessage.length ≤ front.length ∧
      ∀ body', Opens (front ++ body') header body' := by
  obtain ⟨lead, after, channel, message⟩ := opens
  obtain ⟨rfl, clear⟩ := splitSub_spec channel
  obtain ⟨rfl, clear'⟩ := splitSub_spec message
  refine ⟨lead ++ harmonyChannel ++ (header ++ harmonyMessage), by simp, by simp; omega,
    fun body' => ⟨lead, header ++ harmonyMessage ++ body', ?_, ?_⟩⟩
  · have short : splitSub harmonyChannel (lead ++ harmonyChannel ++ []) = some (lead, []) := by
      refine splitSub_of_clear ?_
      rw [List.append_nil]
      exact clear.of_append
    rw [List.append_nil] at short
    rw [List.append_assoc, splitSub_append (by decide) short]
    rfl
  · have short : splitSub harmonyMessage (header ++ harmonyMessage ++ []) = some (header, []) := by
      refine splitSub_of_clear ?_
      rw [List.append_nil]
      exact clear'.of_append
    rw [List.append_nil] at short
    rw [splitSub_append (by decide) short]
    rfl

theorem Opens.append (opens : Opens text header body) (ext : List Char) :
    Opens (text ++ ext) header (body ++ ext) := by
  obtain ⟨lead, after, channel, message⟩ := opens
  exact ⟨lead, after ++ ext, splitSub_append (by decide) channel ext,
    splitSub_append (by decide) message ext⟩

theorem Opens.length_lt (opens : Opens text header body) : body.length < text.length := by
  obtain ⟨front, rfl, long, -⟩ := opens.replace
  have positive : 0 < harmonyChannel.length := by decide
  rw [List.length_append]
  omega

theorem Opens.channel (opens : Opens text header body) : harmonyChannel <:+: text := by
  obtain ⟨lead, after, channel, -⟩ := opens
  exact ⟨lead, after, (splitSub_spec channel).1.symm⟩

theorem segmentEnd_eq_some_iff :
    segmentEnd body = (stop, some tok) ↔ earliest harmonyBoundaryTokens body = some (stop, tok) := by
  rw [segmentEnd]
  cases earliest harmonyBoundaryTokens body with
  | none => simp
  | some found =>
    obtain ⟨pos, tok'⟩ := found
    simp

theorem segmentEnd_none (open_ : segmentEnd body = (stop, none)) :
    stop = body.length ∧ ∀ tok ∈ harmonyBoundaryTokens, ¬ tok <:+: body := by
  rw [segmentEnd] at open_
  cases found : earliest harmonyBoundaryTokens body with
  | none =>
    rw [found] at open_
    exact ⟨(Prod.mk.inj open_).1.symm, earliest_eq_none_iff.mp found⟩
  | some first =>
    rw [found] at open_
    exact absurd (Prod.mk.inj open_).2 (by simp)

theorem segmentEnd_of_free (free : ∀ tok ∈ harmonyBoundaryTokens, ¬ tok <:+: body) :
    segmentEnd body = (body.length, none) := by
  rw [segmentEnd, earliest_eq_none_iff.mpr free]

theorem segmentEnd_append (ends : segmentEnd body = (stop, some tok)) (ext : List Char) :
    segmentEnd (body ++ ext) = (stop, some tok) :=
  segmentEnd_eq_some_iff.mpr
    (headed_harmonyBoundaryTokens.earliest_append (segmentEnd_eq_some_iff.mp ends) ext)

theorem segmentEnd_spec (ends : segmentEnd body = (stop, some tok)) :
    tok ∈ harmonyBoundaryTokens ∧ tok <+: body.drop stop ∧ stop + tok.length ≤ body.length ∧
      ∀ tok' ∈ harmonyBoundaryTokens, ClearBelow tok' stop body := by
  obtain ⟨mem, at_, clear⟩ := earliest_spec (segmentEnd_eq_some_iff.mp ends)
  have here := findSub_occurs at_
  have inside := findSub_le at_
  have room := here.length_le
  rw [List.length_drop] at room
  exact ⟨mem, here, by omega, clear⟩

/-! ## The scan -/

attribute [local grind =] scanFrom

theorem scanFrom_eq_scan {bound : Nat} (enough : text.length ≤ bound) :
    scanFrom holdPartial bound text = scan holdPartial text := by
  have general : ∀ m n text, text.length ≤ m → text.length ≤ n →
      scanFrom holdPartial m text = scanFrom holdPartial n text := by
    intro m
    induction m with
    | zero =>
      intro n text short _
      obtain rfl := List.length_eq_zero_iff.mp (Nat.le_zero.mp short)
      cases n with
      | zero => rfl
      | succ n => rfl
    | succ m ih =>
      intro n text short short'
      cases n with
      | zero =>
        obtain rfl := List.length_eq_zero_iff.mp (Nat.le_zero.mp short')
        rfl
      | succ n =>
        rw [scanFrom, scanFrom]
        cases channel : splitSub harmonyChannel text with
        | none => rfl
        | some found =>
          obtain ⟨lead, after⟩ := found
          cases message : splitSub harmonyMessage after with
          | none => simp only [message]
          | some found' =>
            obtain ⟨header, bodyText⟩ := found'
            have smaller := Opens.length_lt ⟨lead, after, channel, message⟩
            simp only [message]
            cases (segmentEnd bodyText).2 with
            | none => rfl
            | some tok =>
              have rest : (bodyText.drop (segmentEnd bodyText).1).length ≤ bodyText.length := by
                rw [List.length_drop]
                omega
              simp only
              rw [ih n (bodyText.drop (segmentEnd bodyText).1) (by omega) (by omega)]
  exact general bound text.length text enough le_rfl

theorem scan_of_closed (closed : ∀ header body, ¬ Opens text header body) :
    scan holdPartial text = .empty := by
  rw [scan]
  cases size : text.length with
  | zero => rfl
  | succ n =>
    rw [scanFrom]
    cases channel : splitSub harmonyChannel text with
    | none => rfl
    | some found =>
      obtain ⟨lead, after⟩ := found
      cases message : splitSub harmonyMessage after with
      | none => simp only [message]
      | some found' => exact absurd ⟨lead, after, channel, message⟩ (closed found'.1 found'.2)

theorem scan_of_open (opens : Opens text header body) (open_ : segmentEnd body = (stop, none)) :
    scan holdPartial text = segmentResult holdPartial header body stop none := by
  have smaller := opens.length_lt
  obtain ⟨lead, after, channel, message⟩ := opens
  obtain ⟨n, size⟩ := Nat.exists_eq_succ_of_ne_zero (show text.length ≠ 0 by omega)
  rw [scan, size, scanFrom]
  simp only [channel, message, open_]

theorem scan_of_ended (opens : Opens text header body) (ends : segmentEnd body = (stop, some tok)) :
    scan holdPartial text =
      segmentResult holdPartial header body stop (some tok) ++ scan holdPartial (body.drop stop) := by
  have smaller := opens.length_lt
  have least := opens
  obtain ⟨lead, after, channel, message⟩ := opens
  obtain ⟨n, size⟩ := Nat.exists_eq_succ_of_ne_zero (show text.length ≠ 0 by omega)
  rw [scan, size, scanFrom]
  simp only [channel, message, ends]
  rw [scanFrom_eq_scan (by rw [List.length_drop]; omega)]

theorem scan_eq_empty (free : ¬ harmonyChannel <:+: text) : scan holdPartial text = .empty :=
  scan_of_closed fun _ _ opens => free opens.channel

theorem segmentResult_congr {body' : List Char}
    (same : body.take (stop + tok.length) = body'.take (stop + tok.length)) (hold' : Bool) :
    segmentResult holdPartial header body stop (some tok) =
      segmentResult hold' header body' stop (some tok) := by
  have short : body.take stop = body'.take stop := by
    have cut := congrArg (List.take stop) same
    rwa [List.take_take, List.take_take, Nat.min_eq_left (by omega)] at cut
  have slice : ∀ closes : Prop, [Decidable closes] →
      body.take (if closes then stop + tok.length else stop) =
        body'.take (if closes then stop + tok.length else stop) := by
    intro closes _
    split_ifs
    · exact same
    · exact short
  simp only [segmentResult, short, slice, reduceCtorEq, false_and, if_false]

/-! ## What a scan gives only grows -/

def ReasoningParseResult.Begins (r r' : ReasoningParseResult) : Prop :=
  r.reasoningText <+: r'.reasoningText ∧ r.normalText <+: r'.normalText

theorem ReasoningParseResult.Begins.append_left {r r' : ReasoningParseResult} (h : r.Begins r')
    (first : ReasoningParseResult) : (first ++ r).Begins (first ++ r') :=
  ⟨(List.prefix_append_right_inj _).mpr h.1, (List.prefix_append_right_inj _).mpr h.2⟩

theorem ReasoningParseResult.begins_append (r r' : ReasoningParseResult) : r.Begins (r ++ r') :=
  ⟨List.prefix_append _ _, List.prefix_append _ _⟩

theorem ReasoningParseResult.Begins.trans {r r' r'' : ReasoningParseResult} (h : r.Begins r')
    (h' : r'.Begins r'') : r.Begins r'' :=
  ⟨h.1.trans h'.1, h.2.trans h'.2⟩

def heldBody (holdPartial : Bool) (body : List Char) : List Char :=
  if holdPartial then (splitPartial harmonyAllTokens body).1 else body

theorem segmentResult_open (plain : ¬ isTool header = true) :
    segmentResult holdPartial header body body.length none =
      if channelOf header = "analysis".toList then ⟨heldBody holdPartial body, []⟩
      else ⟨[], heldBody holdPartial body⟩ := by
  simp only [segmentResult, plain, List.take_length, heldBody, true_and, if_false,
    Bool.false_eq_true]

theorem heldBody_begins (holdPartial : Bool) (body : List Char) :
    heldBody holdPartial body <+: body := by
  rw [heldBody]
  split_ifs
  · exact ⟨_, splitPartial_append _ _⟩
  · exact List.prefix_rfl

theorem heldBody_append (body ext : List Char) :
    heldBody true body <+: heldBody holdPartial (body ++ ext) := by
  have inBody := heldBody_begins true body
  refine @List.prefix_of_prefix_length_le _ _ _ (body ++ ext)
    (inBody.trans (List.prefix_append _ _)) (heldBody_begins _ _) ?_
  have grows := partialLen_append_le harmonyAllTokens body ext
  have inside := partialLen_le_length harmonyAllTokens body
  rw [heldBody, heldBody, if_pos rfl]
  split_ifs <;>
    simp only [splitPartial, List.splitAt_eq, List.length_take, List.length_append] <;> omega

theorem heldBody_of_ended (free : ∀ tok ∈ harmonyBoundaryTokens, ¬ tok <:+: body)
    (ends : segmentEnd (body ++ ext) = (stop, some tok)) :
    heldBody true body <+: (body ++ ext).take stop := by
  obtain ⟨mem, here, -, -⟩ := segmentEnd_spec ends
  have clear := @clearBelow_splitPartial _ _ harmonyAllTokens _ _
    (List.mem_append_right _ mem) (free tok mem) ext
  rw [heldBody, if_pos rfl]
  refine @List.prefix_of_prefix_length_le _ _ _ (body ++ ext) ?_ (List.take_prefix _ _) ?_
  · exact (heldBody_begins true body).trans (List.prefix_append _ _)
  · have atMost : (splitPartial harmonyAllTokens body).1.length ≤ stop :=
      not_lt.mp fun beyond => clear stop beyond here
    obtain ⟨-, -, room, -⟩ := segmentEnd_spec ends
    rw [List.length_take]
    omega

/-- What a scan gives, all but what it holds back, is given of the longer text, unless a tool call is
ended there by the marker of the next segment. -/
theorem scan_begins (free : ext ≠ [] → ¬ ToolAbut (text ++ ext)) :
    (scan true text).Begins (scan holdPartial (text ++ ext)) := by
  have general : ∀ n text, text.length = n → (ext ≠ [] → ¬ ToolAbut (text ++ ext)) →
      (scan true text).Begins (scan holdPartial (text ++ ext)) := by
    intro n
    induction n using Nat.strong_induction_on with
    | _ n ih =>
      rintro text rfl free
      by_cases opened : ∃ header body, Opens text header body
      swap
      · rw [scan_of_closed fun header body opens => opened ⟨header, body, opens⟩]
        exact ⟨List.nil_prefix, List.nil_prefix⟩
      obtain ⟨header, body, opens⟩ := opened
      have grown := opens.append ext
      cases ends : segmentEnd body with
      | mk stop matched =>
        cases matched with
        | some tok =>
          -- The segment is complete, and the rest is scanned in both texts.
          have ends' := segmentEnd_append ends ext
          obtain ⟨-, -, room, -⟩ := segmentEnd_spec ends
          have rest : (body ++ ext).drop stop = body.drop stop ++ ext :=
            List.drop_append_of_le_length (by omega)
          have smaller := opens.length_lt
          rw [scan_of_ended opens ends, scan_of_ended grown ends', rest,
            @segmentResult_congr _ _ _ _ _ (body ++ ext)
              (by rw [List.take_append_of_le_length (by omega)]) holdPartial]
          refine (ih _ ?_ (body.drop stop) rfl fun some_ abut => free some_ ?_).append_left _
          · rw [List.length_drop]
            omega
          · exact .later grown ends' (rest ▸ abut)
        | none =>
          obtain ⟨rfl, noToken⟩ := segmentEnd_none ends
          rw [scan_of_open opens ends]
          cases ends' : segmentEnd (body ++ ext) with
          | mk stop' matched' =>
            cases matched' with
            | none =>
              obtain ⟨rfl, -⟩ := segmentEnd_none ends'
              rw [scan_of_open grown ends']
              by_cases tool : isTool header = true
              · simp only [segmentResult, tool, if_true, List.take_length]
                exact ⟨List.prefix_rfl, (List.prefix_append_right_inj _).mpr
                  (List.prefix_append _ _)⟩
              · rw [segmentResult_open tool, segmentResult_open tool]
                have grows := @heldBody_append holdPartial body ext
                split_ifs
                · exact ⟨grows, List.prefix_rfl⟩
                · exact ⟨List.prefix_rfl, grows⟩
            | some tok =>
              rw [scan_of_ended grown ends']
              refine ReasoningParseResult.Begins.trans ?_ (ReasoningParseResult.begins_append _ _)
              obtain ⟨mem, here, room, -⟩ := segmentEnd_spec ends'
              by_cases tool : isTool header = true
              · have some_ : ext ≠ [] := by
                  rintro rfl
                  rw [List.append_nil] at here
                  exact noToken tok mem (here.isInfix.trans (List.drop_suffix _ _).isInfix)
                have closes : tok ∈ closingBoundaryTokens := by
                  by_contra abuts
                  exact free some_ (.here grown tool ends' abuts)
                have beyond : body.length ≤ stop' + tok.length := by
                  by_contra within
                  exact noToken tok mem (isInfix_of_prefix_drop_append here (by omega))
                simp only [segmentResult, tool, if_true, closes, List.take_length]
                refine ⟨List.prefix_rfl, (List.prefix_append_right_inj _).mpr ?_⟩
                rw [List.take_append, List.take_of_length_le beyond]
                exact List.prefix_append _ _
              · have grows := heldBody_of_ended noToken ends'
                have given : segmentResult holdPartial header (body ++ ext) stop' (some tok) =
                    if channelOf header = "analysis".toList then ⟨(body ++ ext).take stop', []⟩
                    else ⟨[], (body ++ ext).take stop'⟩ := by
                  simp only [segmentResult, tool, reduceCtorEq, false_and, if_false,
                    Bool.false_eq_true]
                rw [segmentResult_open tool, given]
                split_ifs
                · exact ⟨grows, List.prefix_rfl⟩
                · exact ⟨List.prefix_rfl, grows⟩
  exact general text.length text rfl free

theorem ToolAbut.append (abut : ToolAbut text) (ext : List Char) : ToolAbut (text ++ ext) := by
  induction abut with
  | here opens tool ends abuts =>
    exact .here (opens.append ext) tool (segmentEnd_append ends ext) abuts
  | later opens ends _ ih =>
    obtain ⟨-, -, room, -⟩ := segmentEnd_spec ends
    refine .later (opens.append ext) (segmentEnd_append ends ext) ?_
    rw [List.drop_append_of_le_length (by omega)]
    exact ih

end

namespace GptOssHarmonyReasoningParser

section
variable {p : GptOssHarmonyReasoningParser} {pieces : List (List Char)} {text : List Char}

/-- What was given away is what the scan of the buffer gives. -/
def InStep (p : GptOssHarmonyReasoningParser) : Prop :=
  p.emittedReasoning = (scan true p.buffer).reasoningText.length ∧
    p.emittedContent = (scan true p.buffer).normalText.length

theorem drop_append_drop {α : Type*} {xs ys : List α} {n : Nat} (begins : xs <+: ys)
    (within : n ≤ xs.length) : xs.drop n ++ ys.drop xs.length = ys.drop n := by
  obtain ⟨rest, rfl⟩ := begins
  rw [List.drop_left, List.drop_append_of_le_length within]

theorem stream_of_inStep (inStep : p.InStep) (free : ¬ ToolAbut (p.buffer ++ pieces.flatten)) :
    p.stream pieces =
      ⟨(scan false (p.buffer ++ pieces.flatten)).reasoningText.drop p.emittedReasoning,
        (scan false (p.buffer ++ pieces.flatten)).normalText.drop p.emittedContent⟩ := by
  induction pieces generalizing p with
  | nil => simp [stream, flush, emit]
  | cons piece pieces ih =>
    rw [List.flatten_cons, ← List.append_assoc] at free ⊢
    have tail := @ih (p.parseStreamingIncrement piece).1 ⟨rfl, rfl⟩ free
    have before : (scan true p.buffer).Begins (scan true (p.buffer ++ piece)) :=
      scan_begins fun _ abut => free (abut.append _)
    have after : (scan true (p.buffer ++ piece)).Begins
        (scan false (p.buffer ++ piece ++ pieces.flatten)) :=
      scan_begins fun _ => free
    rw [stream, tail]
    refine (ReasoningParseResult.mk_append _ _ _ _).trans ?_
    refine congrArg₂ _ (drop_append_drop after.1 ?_) (drop_append_drop after.2 ?_)
    · rw [inStep.1]
      exact before.1.length_le
    · rw [inStep.2]
      exact before.2.length_le

theorem stream_eq_scan (free : ¬ ToolAbut pieces.flatten) :
    create.stream pieces = scan false pieces.flatten :=
  @stream_of_inStep create pieces ⟨rfl, rfl⟩ free

end

/-! ## Where the promise fails -/

section
variable {text : List Char}

theorem stream_of_free {pieces : List (List Char)} (free : ¬ harmonyChannel <:+: pieces.flatten) :
    create.stream pieces = ⟨[], []⟩ := by
  have closed : ¬ ToolAbut pieces.flatten := by
    intro abut
    cases abut with
    | here opens _ _ _ => exact free opens.channel
    | later opens _ _ => exact free opens.channel
  rw [stream_eq_scan closed, scan_eq_empty free]
  rfl

/-- A cut behind the first character of the marker that ends a tool call gives that character away,
and a cut behind the marker shows that it was not part of the call. -/
theorem exists_cuts (abut : ToolAbut text) :
    ∃ front tok rest r, text = front ++ tok ++ rest ∧ tok ∈ harmonyBoundaryTokens ∧
      harmonyChannel.length + harmonyMessage.length ≤ front.length ∧
      scan true (front ++ ['<']) = r ++ ⟨[], ['<']⟩ ∧ scan true (front ++ tok) = r ∧
      ∀ holdPartial, r.Begins (scan holdPartial text) := by
  have lengths : ∀ tok ∈ harmonyBoundaryTokens, 2 ≤ tok.length ∧ tok.head? = some '<' ∧
      tok.length ≤ harmonyChannel.length + harmonyMessage.length := by decide
  induction abut with
  | @here text header body tok stop opens tool ends abuts =>
    obtain ⟨front, rfl, long, replace⟩ := opens.replace
    obtain ⟨mem, ⟨rest, hrest⟩, room, clear⟩ := segmentEnd_spec ends
    have whole : body = body.take stop ++ tok ++ rest := by
      rw [List.append_assoc, hrest, List.take_append_drop]
    have size : (body.take stop).length = stop := by
      rw [List.length_take]
      omega
    generalize body.take stop = given at whole size
    subst whole size
    obtain ⟨two, head, -⟩ := lengths tok mem
    refine ⟨front ++ given, tok, rest,
      ⟨[], harmonyChannel ++ header ++ harmonyMessage ++ given⟩, by simp [List.append_assoc], mem,
      by rw [List.length_append]; omega, ?_, ?_, ?_⟩
    · have open_ : segmentEnd (given ++ ['<']) = ((given ++ ['<']).length, none) := by
        refine segmentEnd_of_free fun tok' mem' occurs => ?_
        obtain ⟨d, hd⟩ := isInfix_iff_exists_drop.mp occurs
        have room' := hd.length_le
        obtain ⟨two', -, -⟩ := lengths tok' mem'
        simp only [List.length_drop, List.length_append, List.length_singleton] at room'
        refine clear tok' mem' d (by omega) ?_
        obtain ⟨c, tail, rfl⟩ := List.exists_cons_of_ne_nil
          (List.length_pos_iff.mp (show 0 < tok.length by omega))
        obtain rfl : c = '<' := Option.some.inj head
        have longer : given ++ '<' :: tail ++ rest = given ++ ['<'] ++ (tail ++ rest) := by simp
        rw [longer, List.drop_append_of_le_length (by simp; omega)]
        exact hd.trans (List.prefix_append _ _)
      rw [List.append_assoc, scan_of_open (replace _) open_]
      simp [segmentResult, tool]
    · have ended : segmentEnd (given ++ tok) = (given.length, some tok) := by
        refine segmentEnd_eq_some_iff.mpr (headed_harmonyBoundaryTokens.earliest_eq mem ?_
          fun tok' mem' => (clear tok' mem').of_append)
        rw [List.drop_left]
      have last : scan true tok = .empty := by
        have both : ∀ tok ∈ harmonyBoundaryTokens, tok ∉ closingBoundaryTokens →
            scan true tok = .empty := by decide
        exact both tok mem abuts
      rw [List.append_assoc, scan_of_ended (replace _) ended, List.drop_left, last]
      simp [segmentResult, tool, abuts, ReasoningParseResult.empty]
    · intro holdPartial
      rw [scan_of_ended opens ends]
      refine ReasoningParseResult.Begins.trans ?_ (ReasoningParseResult.begins_append _ _)
      simp only [segmentResult, tool, abuts, if_true, if_false, List.append_assoc, List.take_left]
      exact ⟨List.prefix_rfl, List.prefix_rfl⟩
  | @later text header body tok stop opens ends _ ih =>
    obtain ⟨front, tok', rest, r, whole, mem', long', leaks, shrinks, grows⟩ := ih
    obtain ⟨before, rfl, long, replace⟩ := opens.replace
    obtain ⟨mem, here, room, clear⟩ := segmentEnd_spec ends
    obtain ⟨-, -, short⟩ := lengths tok mem
    -- The marker behind the first segment is in the part of the text that is kept.
    obtain ⟨rest', hrest'⟩ : tok <+: front := by
      rw [whole, List.append_assoc] at here
      exact List.prefix_of_prefix_length_le here (List.prefix_append _ _) (by omega)
    have split : body = body.take stop ++ (front ++ tok' ++ rest) := by
      rw [← whole, List.take_append_drop]
    have size : (body.take stop).length = stop := by
      rw [List.length_take]
      omega
    have kept : ∀ ext, scan true (before ++ body.take stop ++ front ++ ext) =
        segmentResult true header body stop (some tok) ++ scan true (front ++ ext) := by
      intro ext
      have ended : segmentEnd (body.take stop ++ (front ++ ext)) = (stop, some tok) := by
        refine segmentEnd_eq_some_iff.mpr (headed_harmonyBoundaryTokens.earliest_eq mem ?_ ?_)
        · rw [List.drop_left' size, ← hrest', List.append_assoc]
          exact List.prefix_append _ _
        · intro other mem'' d below occurs
          -- An earlier marker would overlap this one, or stand before it in the whole text.
          by_cases fits : d + other.length ≤ stop
          · refine clear other mem'' d below ?_
            rw [List.drop_append_of_le_length (by omega)] at occurs
            have inside := List.prefix_of_prefix_length_le occurs (List.prefix_append _ _)
              (by simp only [List.length_drop]; omega)
            rw [split, List.drop_append_of_le_length (by omega)]
            exact inside.trans (List.prefix_append _ _)
          · refine headed_harmonyBoundaryTokens.no_overlap mem'' mem occurs ?_ below (by omega)
            rw [List.drop_left' size, ← hrest', List.append_assoc]
            exact List.prefix_append _ _
      rw [List.append_assoc, List.append_assoc, scan_of_ended (replace _) ended,
        List.drop_left' size]
      congr 1
      refine segmentResult_congr ?_ _
      have agree : ∀ ext, (body.take stop ++ (front ++ ext)).take (stop + tok.length) =
          body.take stop ++ tok := by
        intro ext
        rw [← hrest', List.append_assoc, ← List.append_assoc, List.take_left' (by
          rw [List.length_append, size])]
      rw [agree, ← agree (tok' ++ rest), ← List.append_assoc front, ← split]
    refine ⟨before ++ body.take stop ++ front, tok', rest,
      segmentResult true header body stop (some tok) ++ r, ?_, mem', ?_, ?_, ?_, ?_⟩
    · conv_lhs => rw [split]
      simp only [List.append_assoc]
    · simp only [List.length_append]
      omega
    · rw [kept, leaks, ReasoningParseResult.append_assoc]
    · rw [kept, shrinks]
    · intro holdPartial
      rw [scan_of_ended opens ends, segmentResult_congr rfl true]
      exact (grows holdPartial).append_left _

def marksOf (text : List Char) : List Char := text.filter (!isSpace ·)

theorem marksOf_strip (text : List Char) : marksOf (strip text) = marksOf text := by
  obtain ⟨before, after, hbefore, hafter, whole⟩ := exists_strip text
  have gone : ∀ blank, Blank blank → marksOf blank = [] := fun blank h =>
    List.filter_eq_nil_iff.mpr fun c mem => by simp [h c mem]
  conv_rhs => rw [whole]
  rw [marksOf, marksOf, List.filter_append, List.filter_append]
  rw [← marksOf, ← marksOf, ← marksOf, gone _ hbefore, gone _ hafter]
  simp

/-- When the marker of the next segment ends a tool call, some cut gives a character too much. -/
theorem exists_leak (abut : ToolAbut text) :
    ∃ pieces, pieces.flatten = text ∧
      ¬ (create.stream pieces).SameTrimmed (detectAndParse text) := by
  obtain ⟨front, tok, rest, r, rfl, mem, -, leaks, shrinks, grows⟩ := exists_cuts abut
  obtain ⟨tail, rfl⟩ : ∃ tail, tok = '<' :: tail := by
    have head := headed_harmonyBoundaryTokens.head tok mem
    cases tok with
    | nil => exact absurd head (by simp)
    | cons c tail => exact ⟨tail, by rw [Option.some.inj head]⟩
  refine ⟨[front ++ ['<'], tail, rest], by simp, fun same => ?_⟩
  have channel : harmonyChannel <:+: front ++ '<' :: tail ++ rest := by
    cases abut with
    | here opens _ _ _ => exact opens.channel
    | later opens _ _ => exact opens.channel
  have joined : front ++ ['<'] ++ tail = front ++ '<' :: tail := by simp
  have last : (scan true (front ++ '<' :: tail ++ rest)).Begins
      (scan false (front ++ '<' :: tail ++ rest)) := by
    have self := @scan_begins (front ++ '<' :: tail ++ rest) [] false fun absurd_ => absurd rfl absurd_
    rwa [List.append_nil] at self
  have content : (create.stream [front ++ ['<'], tail, rest]).normalText =
      r.normalText ++ ['<'] ++
        (scan false (front ++ '<' :: tail ++ rest)).normalText.drop r.normalText.length := by
    simp only [stream, parseStreamingIncrement, flush, emit, create, List.nil_append, leaks, joined,
      shrinks, ReasoningParseResult.normalText_append, List.drop_zero]
    rw [List.drop_eq_nil_of_le (by simp), List.nil_append, drop_append_drop last.2]
    exact (grows true).2.length_le
  have trimmed := same.2
  rw [detectAndParse, if_pos channel, content] at trimmed
  have chars := congrArg (fun text => (marksOf text).length) trimmed
  obtain ⟨more, hmore⟩ := (grows false).2
  simp only [marksOf_strip] at chars
  rw [← hmore, List.drop_left] at chars
  simp only [marksOf, List.filter_append, List.length_append] at chars
  have kept : (List.filter (!isSpace ·) ['<']).length = 1 := by decide
  omega

/-- For every cutting of a completion the stream gives the reasoning and the content of the one-shot
parse, up to the whitespace around each, iff the completion has a channel marker or is blank, and no
tool call in it is ended by the marker of the next segment. -/
theorem stream_sameTrimmed_iff :
    (∀ pieces, pieces.flatten = text → (create.stream pieces).SameTrimmed (detectAndParse text)) ↔
      (harmonyChannel <:+: text ∨ Blank text) ∧ ¬ ToolAbut text := by
  constructor
  · refine fun agree => ⟨?_, fun abut => ?_⟩
    · by_cases channel : harmonyChannel <:+: text
      · exact .inl channel
      · have same := (agree [text] (by simp)).2
        rw [@stream_of_free [text] (by simpa using channel), detectAndParse, if_neg channel] at same
        obtain ⟨before, after, hbefore, hafter, whole⟩ := exists_strip text
        refine .inr ?_
        rw [whole, ← same]
        exact hbefore.append (by simpa [strip, lstrip, rstrip] using hafter)
    · obtain ⟨pieces, whole, differs⟩ := exists_leak abut
      exact differs (agree pieces whole)
  · rintro ⟨known, free⟩ pieces rfl
    by_cases channel : harmonyChannel <:+: pieces.flatten
    · rw [stream_eq_scan free, detectAndParse, if_pos channel]
      exact ⟨(strip_strip _).symm, (strip_strip _).symm⟩
    · rw [stream_of_free channel, detectAndParse, if_neg channel]
      refine ⟨rfl, ?_⟩
      have trimmed := strip_append_of_blank (known.resolve_left channel) []
      rw [List.append_nil] at trimmed
      exact trimmed.symm

end

/-- The one-shot parse trims and a stream does not; a stream loses a text without markers. -/
theorem stream_differs :
    create.stream ["<|channel|>final<|message|>hi ".toList] = ⟨[], "hi ".toList⟩ ∧
      detectAndParse "<|channel|>final<|message|>hi ".toList = ⟨[], "hi".toList⟩ ∧
      create.stream ["hi".toList] = ⟨[], []⟩ ∧
      detectAndParse "hi".toList = ⟨[], "hi".toList⟩ := by
  have text : "<|channel|>final<|message|>hi ".toList = _ := String.toList_ofList
  simp only [text]
  with_unfolding_all decide

end GptOssHarmonyReasoningParser

end FreeSwarm.Server
