import FreeSwarm.Server.ToolBlocks

/-!
# Delivery of tool calls

Every call that the tool parser finds is to reach the client as one block, in call order and with the
arguments that it is closed with. The generation keeps its own account of the open call, and the
formatters keep another one of the open block; the two agree as long as nothing is shown between the
fragments of a call.
-/

namespace FreeSwarm.Server

open FreeSwarm.Foundation

/-! ## What is to be delivered -/

def closings (events : List GenEvent) : List ToolCallItem :=
  events.flatMap fun ev => match ev with
    | .toolCallsDelta calls => calls
    | _ => []

@[simp] theorem closings_append (events events' : List GenEvent) :
    closings (events ++ events') = closings events ++ closings events' := List.flatMap_append

/-- The blocks are those of the calls that were found, in their order, and those of the closed calls hold
the arguments that they were closed with, when fragments may be sent as they come. -/
structure DeliveredOnce (style : ToolStyle) (stable : Bool) (found : List (Option (List Char)))
    (closed : List ToolCallItem) (blocks : List ToolBlock) : Prop where
  names : blocks.map (·.name) = found.map style.shownName
  order : closed.map (·.name) <+: found
  args : stable = true → closed.map (·.parameters) <+: blocks.map (·.args)

/-- The number of the call whose fragments follow, and the calls that a piece starts: a fragment with a
name starts one unless it repeats the number of the call before it. -/
def foundStep (current : Option Int) : Arrival → Option Int × List (Option (List Char))
  | .text _ _ => (none, [])
  | .fragment _ frag =>
    if frag.name.isSome ∧ current ≠ some frag.toolIndex then (some frag.toolIndex, [frag.name])
    else (current <|> some frag.toolIndex, [])
  | .reasoning _ => (current, [])
  | .content _ => (current, [])

def foundCalls : Option Int → List Arrival → List (Option (List Char))
  | _, [] => []
  | current, arrival :: arrivals =>
    (foundStep current arrival).2 ++ foundCalls (foundStep current arrival).1 arrivals

namespace Assembly

/-! ## When a call may be closed -/

/-- A call may be closed when nothing was shown since it was opened and, if its fragments are sent as they
come, its arguments go on from them. -/
def ClosesWell (stable late : Bool) (unstreamed : Int → Option (List Char)) (a : Assembly) : Prop :=
  ∀ call, a.openCall = some call →
    late = false ∧ (stable = true → call.params <+: call.finalArguments unstreamed)

/-- A piece may arrive: calls that it closes may be closed, and a fragment belongs to the open call unless
it starts one. -/
def Admits (stable late : Bool) (arrival : Arrival) (a : Assembly) : Prop :=
  match arrival with
  | .text unstreamed _ => a.ClosesWell stable late unstreamed
  | .fragment unstreamed frag =>
    if a.startsNew frag then a.ClosesWell stable late unstreamed else a.openCall.isSome
  | .reasoning _ => True
  | .content _ => True

/-- Something was shown since the open call was opened. -/
def lateAfter (specials : List (List Char)) (late : Bool) (arrival : Arrival) (a : Assembly) : Bool :=
  match arrival with
  | .text _ _ => false
  | .fragment _ frag => if a.startsNew frag then false else late
  | .reasoning delta => late || stripSpecialTokens delta specials ≠ []
  | .content delta => late || stripSpecialTokens delta specials ≠ []

def Orderly (specials : List (List Char)) (stable : Bool) : Bool → List Arrival → Assembly → Prop
  | _, [], _ => True
  | late, arrival :: arrivals, a => a.Admits stable late arrival ∧
    Orderly specials stable (a.lateAfter specials late arrival) arrivals
      (a.route specials stable arrival).1

/-- Something was shown since the call was opened that is open behind all pieces. -/
def lateAfterAll (specials : List (List Char)) (stable : Bool) : Bool → List Arrival → Assembly → Bool
  | late, [], _ => late
  | late, arrival :: arrivals, a =>
    lateAfterAll specials stable (a.lateAfter specials late arrival) arrivals
      (a.route specials stable arrival).1

end Assembly

/-! ## The account -/

/-- What is compared. -/
structure Account where
  blocks : ToolBlocks
  found : List (Option (List Char))
  closed : List ToolCallItem

def Account.add (style : ToolStyle) (events : List GenEvent) (found : List (Option (List Char)))
    (acc : Account) : Account :=
  ⟨acc.blocks.run style events, acc.found ++ found, acc.closed ++ closings events⟩

theorem Account.add_add (style : ToolStyle) (events events' : List GenEvent)
    (found found' : List (Option (List Char))) (acc : Account) :
    (acc.add style events found).add style events' found' =
      acc.add style (events ++ events') (found ++ found') := by
  simp [Account.add, ToolBlocks.run_append]

theorem Account.add_nil (style : ToolStyle) (acc : Account) : acc.add style [] [] = acc := by
  simp [Account.add, closings]

section
variable {style : ToolStyle} {stable late : Bool} {a : Assembly} {acc : Account}

structure Settled (style : ToolStyle) (stable : Bool) (blocks : List ToolBlock)
    (found : List (Option (List Char))) (closed : List ToolCallItem) : Prop where
  names : blocks.map (·.name) = found.map style.shownName
  order : closed.map (·.name) = found
  args : stable = true → blocks.map (·.args) = closed.map (·.parameters)

inductive Agrees (style : ToolStyle) (stable : Bool) : Bool → Assembly → Account → Prop
  | idle {late : Bool} {a : Assembly} {acc : Account} (none_ : a.openCall = none) (closed : acc.blocks.current = none)
      (settled : Settled style stable acc.blocks.closed acc.found acc.closed) :
      Agrees style stable late a acc
  | busy {a : Assembly} {acc : Account} (call : OpenCall) (front : List (Option (List Char)))
      (open_ : a.openCall = some call) (found : acc.found = front ++ [call.name])
      (current : acc.blocks.current = some ⟨call.ordinal, style.forwardsAll || stable,
        ⟨style.shownName call.name, if style.forwardsAll || stable then call.params else []⟩⟩)
      (settled : Settled style stable acc.blocks.closed front acc.closed) :
      Agrees style stable false a acc
  | behind {a : Assembly} {acc : Account} (call : OpenCall) (front : List (Option (List Char)))
      (blocks : List ToolBlock) (block : ToolBlock) (open_ : a.openCall = some call)
      (found : acc.found = front ++ [call.name]) (closed : acc.blocks.current = none)
      (last : acc.blocks.closed = blocks ++ [block]) (name : block.name = style.shownName call.name)
      (settled : Settled style stable blocks front acc.closed) :
      Agrees style stable true a acc

/-- The accounts can never agree again: there are more blocks than calls, or a closed block holds other
arguments than its call. -/
inductive Astray (stable : Bool) (acc : Account) : Prop
  | excess (more : acc.found.length < acc.blocks.all.length)
  | mismatch (i : Nat) (given sent : List Char) (strict : stable = true)
      (call : (acc.closed.map (·.parameters))[i]? = some given)
      (block : (acc.blocks.closed.map (·.args))[i]? = some sent) (other : given ≠ sent)

theorem Agrees.deliveredOnce (agrees : Agrees style stable late a acc) :
    DeliveredOnce style stable acc.found acc.closed acc.blocks.all := by
  cases agrees with
  | idle none_ closed settled =>
    have all : acc.blocks.all = acc.blocks.closed := by simp [ToolBlocks.all, closed]
    rw [all]
    exact ⟨settled.names, settled.order ▸ List.prefix_refl _,
      fun strict => settled.args strict ▸ List.prefix_refl _⟩
  | busy call front open_ found current settled =>
    have all : acc.blocks.all = acc.blocks.closed ++ [⟨style.shownName call.name,
        if style.forwardsAll || stable then call.params else []⟩] := by simp [ToolBlocks.all, current]
    rw [all, found]
    refine ⟨by simp [settled.names], settled.order ▸ List.prefix_append _ _, fun strict => ?_⟩
    rw [List.map_append, settled.args strict]
    exact List.prefix_append _ _
  | behind call front blocks block open_ found closed last name settled =>
    have all : acc.blocks.all = blocks ++ [block] := by simp [ToolBlocks.all, closed, last]
    rw [all, found]
    refine ⟨by simp [settled.names, name], settled.order ▸ List.prefix_append _ _, fun strict => ?_⟩
    rw [List.map_append, settled.args strict]
    exact List.prefix_append _ _

theorem Astray.not_deliveredOnce (astray : Astray stable acc) :
    ¬ DeliveredOnce style stable acc.found acc.closed acc.blocks.all := by
  intro delivered
  cases astray with
  | excess more =>
    have same := congrArg List.length delivered.names
    simp only [List.length_map] at same
    omega
  | mismatch i given sent strict call block other =>
    obtain ⟨later, whole⟩ := delivered.args strict
    have shown : (acc.blocks.all.map (·.args))[i]? = some given := by
      rw [← whole, List.getElem?_append_left (List.getElem?_eq_some_iff.mp call).1]
      exact call
    have kept : (acc.blocks.all.map (·.args))[i]? = some sent := by
      rw [ToolBlocks.all, List.map_append,
        List.getElem?_append_left (List.getElem?_eq_some_iff.mp block).1]
      exact block
    exact other (Option.some.inj (shown.symm.trans kept))

/-! ## Blocks only grow -/

def starts (events : List GenEvent) : Nat :=
  events.countP fun ev => match ev with
    | .toolCallStart .. => true
    | _ => false

/-- What more events do: closed blocks stay, and there are at least as many more blocks as calls are
started. -/
structure Grows (t t' : ToolBlocks) (more : Nat) : Prop where
  closed : t.closed <+: t'.closed
  count : t.all.length + more ≤ t'.all.length

theorem Grows.trans {t t' t'' : ToolBlocks} {more more' : Nat} (first : Grows t t' more)
    (second : Grows t' t'' more') : Grows t t'' (more + more') :=
  ⟨first.closed.trans second.closed, by have := first.count; have := second.count; omega⟩

variable (t : ToolBlocks)

theorem grows_close : Grows t t.close 0 :=
  ⟨List.prefix_append _ _, by simp⟩

theorem grows_openBlock (name : Option (List Char)) (ordinal : Int) (forwards : Bool) :
    Grows t (t.openBlock name ordinal forwards) 1 :=
  ⟨List.prefix_append _ _, by simp [ToolBlocks.openBlock, ToolBlocks.all, Nat.add_assoc]⟩

theorem grows_extend (fragment : List Char) : Grows t (t.extend fragment) 0 := by
  unfold ToolBlocks.extend
  cases current : t.current with
  | none => exact ⟨List.prefix_refl _, le_refl _⟩
  | some b => exact ⟨List.prefix_refl _, by simp [ToolBlocks.all, current]⟩

theorem grows_topUp (final : List Char) : Grows t (t.topUp final) 0 := by
  unfold ToolBlocks.topUp
  cases t.current with
  | none => exact ⟨List.prefix_refl _, le_refl _⟩
  | some b =>
    simp only
    split_ifs
    · exact grows_extend t _
    · exact ⟨List.prefix_refl _, le_refl _⟩

theorem grows_call (call : ToolCallItem) : Grows t (t.call style call) 0 := by
  unfold ToolBlocks.call
  split_ifs
  · exact (grows_topUp t _).trans (grows_close _)
  · have grows := ((grows_openBlock t (style.shownName call.name) call.toolIndex true).trans
      (grows_extend _ call.parameters)).trans (grows_close _)
    exact ⟨grows.closed, Nat.le_of_add_right_le grows.count⟩

theorem grows_calls (calls : List ToolCallItem) :
    Grows t (calls.foldl (ToolBlocks.call style) t) 0 := by
  induction calls generalizing t with
  | nil => exact ⟨List.prefix_refl _, le_refl _⟩
  | cons call calls ih => exact (grows_call t call).trans (ih _)

theorem grows_step (ev : GenEvent) : Grows t (t.step style ev) (starts [ev]) := by
  unfold ToolBlocks.step
  match ev with
  | .reasoningDelta text =>
    simp only
    split_ifs
    · exact ⟨List.prefix_refl _, le_refl _⟩
    · exact grows_close t
  | .contentDelta text =>
    simp only
    split_ifs
    · exact ⟨List.prefix_refl _, le_refl _⟩
    · exact grows_close t
  | .toolCallStart toolIndex name stable => exact grows_openBlock t _ _ _
  | .toolCallArgsDelta toolIndex fragment =>
    simp only
    split_ifs
    · exact grows_extend t fragment
    · exact ⟨List.prefix_refl _, le_refl _⟩
  | .toolCallsDelta calls => exact grows_calls t calls
  | .genDone .. => exact grows_close t

theorem grows_run (style : ToolStyle) (t : ToolBlocks) (events : List GenEvent) :
    Grows t (t.run style events) (starts events) := by
  induction events generalizing t with
  | nil => exact ⟨List.prefix_refl _, le_refl _⟩
  | cons ev events ih =>
    rw [show ev :: events = [ev] ++ events from rfl, starts, List.countP_append]
    exact (grows_step t ev).trans (ih _)

theorem Astray.add (astray : Astray stable acc) (style : ToolStyle) (events : List GenEvent)
    (found : List (Option (List Char))) (fewer : found.length ≤ starts events) :
    Astray stable (acc.add style events found) := by
  have grows := grows_run style acc.blocks events
  cases astray with
  | excess more =>
    apply Astray.excess
    have count := grows.count
    simp only [Account.add, List.length_append]
    omega
  | mismatch i given sent strict call block other =>
    refine .mismatch i given sent strict ?_ ?_ other
    · simp only [Account.add, List.map_append]
      rw [List.getElem?_append_left (List.getElem?_eq_some_iff.mp call).1]
      exact call
    · obtain ⟨later, whole⟩ := grows.closed
      simp only [Account.add]
      rw [← whole, List.map_append,
        List.getElem?_append_left (List.getElem?_eq_some_iff.mp block).1]
      exact block

/-! ## The steps of the assembly -/

/-- The open block becomes complete: its arguments are the final ones when they go on from what was
sent. -/
theorem topUp_close {t : ToolBlocks} {b : OpenBlock} (current : t.current = some b) (final : List Char) :
    (t.topUp final).close = ⟨t.closed ++ [{ b.block with
      args := if b.block.args <+: final then final else b.block.args }], none⟩ := by
  unfold ToolBlocks.topUp
  rw [current]
  simp only
  by_cases begins : b.block.args <+: final
  · obtain ⟨rest, rfl⟩ := begins
    by_cases done : rest = []
    · simp [done, ToolBlocks.close, ToolBlocks.all, current]
    · simp [done, ToolBlocks.close, ToolBlocks.all, ToolBlocks.extend, current]
  · simp [begins, ToolBlocks.close, ToolBlocks.all, current]

theorem run_close_busy (style : ToolStyle) (call : OpenCall) {block : ToolBlock} {forwards : Bool}
    (current : acc.blocks.current = some ⟨call.ordinal, forwards, block⟩) (final : List Char) :
    acc.add style [.toolCallsDelta [⟨call.ordinal, call.name, final⟩]] [] =
      ⟨⟨acc.blocks.closed ++ [{ block with
        args := if block.args <+: final then final else block.args }], none⟩, acc.found,
          acc.closed ++ [⟨call.ordinal, call.name, final⟩]⟩ := by
  have own : acc.blocks.call style ⟨call.ordinal, call.name, final⟩ =
      (acc.blocks.topUp final).close := by
    simp [ToolBlocks.call, current]
  simp [Account.add, closings, ToolBlocks.step, own, topUp_close current final]

variable {specials : List (List Char)} {unstreamed : Int → Option (List Char)}

theorem Agrees.closeOpenCall (agrees : Agrees style stable late a acc)
    (well : a.ClosesWell stable late unstreamed) :
    Agrees style stable false (a.closeOpenCall unstreamed).1
      (acc.add style (a.closeOpenCall unstreamed).2 []) := by
  unfold Assembly.closeOpenCall
  cases agrees with
  | idle none_ closed settled =>
    rw [none_]
    simp only [Account.add_nil]
    exact .idle none_ closed settled
  | busy call front open_ found current settled =>
    rw [open_]
    simp only
    rw [run_close_busy style call current]
    refine .idle rfl rfl ⟨?_, ?_, fun strict => ?_⟩
    · simp [settled.names, found]
    · simp [settled.order, found]
    · have goes := (well call open_).2 strict
      simp [settled.args strict, strict, goes]
  | behind call front blocks block open_ found closed last name settled =>
    exact absurd (well call open_).1 (by simp)

theorem Agrees.astray_of_close (agrees : Agrees style stable late a acc)
    (ill : ¬ a.ClosesWell stable late unstreamed) :
    Astray stable (acc.add style (a.closeOpenCall unstreamed).2 []) := by
  unfold Assembly.closeOpenCall
  cases agrees with
  | idle none_ closed settled => exact absurd (fun call open_ => by simp [none_] at open_) ill
  | busy call front open_ found current settled =>
    have breaks : stable = true ∧ ¬ call.params <+: call.finalArguments unstreamed := by
      by_contra fine
      refine ill fun call' open' => ⟨rfl, fun strict => ?_⟩
      obtain rfl : call = call' := Option.some.inj (open_.symm.trans open')
      exact not_not.mp fun other => fine ⟨strict, other⟩
    obtain ⟨strict, other⟩ := breaks
    rw [open_]
    simp only
    rw [run_close_busy style call current]
    refine .mismatch acc.closed.length (call.finalArguments unstreamed) call.params strict (by simp)
      ?_ fun same => other (same ▸ List.prefix_refl _)
    have many : acc.closed.length = acc.blocks.closed.length := by
      simpa using (congrArg List.length (settled.args strict)).symm
    simp [many, strict, other]
  | behind call front blocks block open_ found closed last name settled =>
    rw [open_]
    apply Astray.excess
    have count : acc.found.length = acc.blocks.closed.length := by
      have names := congrArg List.length settled.names
      simp only [List.length_map] at names
      simp [found, last, names]
    simp [Account.add, ToolBlocks.step, ToolBlocks.call, closed, ToolBlocks.all, ToolBlocks.openBlock,
      ToolBlocks.extend, ToolBlocks.close, count]

theorem Agrees.settled (agrees : Agrees style stable late a acc) (none_ : a.openCall = none) :
    acc.blocks.current = none ∧ Settled style stable acc.blocks.closed acc.found acc.closed := by
  cases agrees with
  | idle _ closed settled => exact ⟨closed, settled⟩
  | busy call front open_ => exact absurd (none_.symm.trans open_) (by simp)
  | behind call front blocks block open_ => exact absurd (none_.symm.trans open_) (by simp)

theorem Agrees.openUnlessOpen (agrees : Agrees style stable late a acc) (none_ : a.openCall = none)
    (frag : ToolCallItem) :
    Agrees style stable false (a.openUnlessOpen stable frag).1
      (acc.add style (a.openUnlessOpen stable frag).2 [frag.name]) := by
  obtain ⟨closed, settled⟩ := agrees.settled none_
  unfold Assembly.openUnlessOpen
  rw [none_]
  refine .busy ⟨frag.toolIndex, frag.name, [], a.callsEmitted⟩ acc.found rfl rfl ?_ ?_
  · simp [Account.add, ToolBlocks.step, ToolBlocks.openBlock]
  · simpa [Account.add, ToolBlocks.step, ToolBlocks.openBlock, ToolBlocks.all, closed, closings]
      using settled

theorem Agrees.astray_of_open (agrees : Agrees style stable late a acc) (none_ : a.openCall = none)
    (frag : ToolCallItem) : Astray stable (acc.add style (a.openUnlessOpen stable frag).2 []) := by
  obtain ⟨closed, settled⟩ := agrees.settled none_
  unfold Assembly.openUnlessOpen
  rw [none_]
  apply Astray.excess
  have names := congrArg List.length settled.names
  simp only [List.length_map] at names
  simp [Account.add, ToolBlocks.step, ToolBlocks.openBlock, ToolBlocks.all, closed, names]

theorem Agrees.addParameters (agrees : Agrees style stable late a acc) (frag : ToolCallItem) :
    Agrees style stable late (a.addParameters frag).1 (acc.add style (a.addParameters frag).2 []) := by
  unfold Assembly.addParameters
  cases agrees with
  | idle none_ closed settled =>
    rw [none_]
    simp only [Account.add_nil]
    exact .idle none_ closed settled
  | busy call front open_ found current settled =>
    rw [open_]
    simp only
    split_ifs
    · rw [Account.add_nil]
      exact .busy call front open_ found current settled
    · refine .busy { call with params := call.params ++ frag.parameters } front rfl ?_ ?_ ?_
      · simpa [Account.add] using found
      · cases forwards : style.forwardsAll || stable with
        | true => simp [Account.add, ToolBlocks.step, current, forwards]
        | false => simp [Account.add, ToolBlocks.step, current, forwards]
      · cases forwards : style.forwardsAll || stable with
        | true => simpa [Account.add, ToolBlocks.step, current, forwards, closings, ToolBlocks.extend]
            using settled
        | false => simpa [Account.add, ToolBlocks.step, current, forwards, closings] using settled
  | behind call front blocks block open_ found closed last name settled =>
    rw [open_]
    simp only
    split_ifs
    · rw [Account.add_nil]
      exact .behind call front blocks block open_ found closed last name settled
    · refine .behind { call with params := call.params ++ frag.parameters } front blocks block rfl
        ?_ ?_ ?_ name ?_
      · simpa [Account.add] using found
      · simp [Account.add, ToolBlocks.step, closed]
      · simpa [Account.add, ToolBlocks.step, closed] using last
      · simpa [Account.add, closings] using settled

theorem Agrees.shown (agrees : Agrees style stable late a acc) (ev : GenEvent)
    (closes : ∀ t : ToolBlocks, t.step style ev = t.close) (silent : closings [ev] = []) :
    Agrees style stable true a (acc.add style [ev] []) := by
  have added : acc.add style [ev] [] = ⟨acc.blocks.close, acc.found, acc.closed⟩ := by
    simp [Account.add, closes, silent]
  rw [added]
  cases agrees with
  | idle none_ closed settled =>
    rw [ToolBlocks.close_of_none closed]
    exact .idle none_ closed settled
  | busy call front open_ found current settled =>
    refine .behind call front acc.blocks.closed ⟨style.shownName call.name,
      if style.forwardsAll || stable then call.params else []⟩ open_ found rfl ?_ rfl settled
    simp [ToolBlocks.close, ToolBlocks.all, current]
  | behind call front blocks block open_ found closed last name settled =>
    rw [ToolBlocks.close_of_none closed]
    exact .behind call front blocks block open_ found closed last name settled

theorem Agrees.of_none (agrees : Agrees style stable late a acc) {a' : Assembly}
    (none_ : a.openCall = none) (none' : a'.openCall = none) (late' : Bool) :
    Agrees style stable late' a' acc := by
  obtain ⟨closed, settled⟩ := agrees.settled none_
  exact .idle none' closed settled

@[simp] theorem openCall_close (a : Assembly) (unstreamed : Int → Option (List Char)) :
    (a.closeOpenCall unstreamed).1.openCall = none := by
  unfold Assembly.closeOpenCall
  cases none_ : a.openCall with
  | none => exact none_
  | some call => rfl

@[simp] theorem openCall_releaseText (a : Assembly) (specials : List (List Char)) (payload : List Char) :
    (a.releaseText specials payload).1.openCall = a.openCall := by
  unfold Assembly.releaseText
  simp only
  split_ifs <;> rfl

theorem openCall_openUnlessOpen {a : Assembly} (none_ : a.openCall = none) (frag : ToolCallItem) :
    (a.openUnlessOpen stable frag).1.openCall =
      some ⟨frag.toolIndex, frag.name, [], a.callsEmitted⟩ := by
  simp [Assembly.openUnlessOpen, none_]

theorem openUnlessOpen_of_some {a : Assembly} (some_ : a.openCall.isSome) (frag : ToolCallItem) :
    a.openUnlessOpen stable frag = (a, []) := by
  obtain ⟨call, open_⟩ := Option.isSome_iff_exists.mp some_
  simp [Assembly.openUnlessOpen, open_]

@[simp] theorem detectorIndex_addParameters (a : Assembly) (frag : ToolCallItem) :
    (a.addParameters frag).1.openCall.map (·.detectorIndex) =
      a.openCall.map (·.detectorIndex) := by
  unfold Assembly.addParameters
  cases open_ : a.openCall with
  | none => simp [open_]
  | some call =>
    simp only
    split_ifs
    · simp [open_]
    · rfl

theorem startsNew_iff (a : Assembly) (frag : ToolCallItem) :
    a.startsNew frag = true ↔
      frag.name.isSome ∧ a.openCall.map (·.detectorIndex) ≠ some frag.toolIndex := by
  unfold Assembly.startsNew
  cases a.openCall with
  | none => simp
  | some call =>
    simp only [Option.map_some, ne_eq, Option.some.injEq, Bool.and_eq_true, decide_not,
      Bool.not_eq_true', decide_eq_false_iff_not]
    exact and_congr_right fun _ => not_congr eq_comm

theorem Agrees.releaseText (agrees : Agrees style stable late a acc) (none_ : a.openCall = none)
    (specials : List (List Char)) (payload : List Char) (late' : Bool) :
    Agrees style stable late' (a.releaseText specials payload).1
      (acc.add style (a.releaseText specials payload).2 []) := by
  unfold Assembly.releaseText
  by_cases some_ : stripSpecialTokens payload specials ≠ [] ∧
      ¬ (strip (stripSpecialTokens payload specials) = [] ∧ a.suppressWs = true)
  · simp only [if_pos some_]
    have shown := agrees.shown (.contentDelta (stripSpecialTokens payload specials))
      (fun t => by simp [ToolBlocks.step, some_.1]) rfl
    exact shown.of_none none_ (by simpa using none_) late'
  · simp only [if_neg some_, Account.add_nil]
    exact agrees.of_none none_ none_ late'

/-- What is shown leaves an open call behind, unless nothing is left of it. -/
theorem Agrees.release (agrees : Agrees style stable late a acc) {events : List GenEvent}
    {stripped : List Char}
    (nothing : stripped = [] → acc.add style events [] = acc)
    (something : stripped ≠ [] → ∃ ev, events = [ev] ∧ closings [ev] = [] ∧
      ∀ t : ToolBlocks, t.step style ev = t.close) :
    Agrees style stable (late || stripped ≠ []) a (acc.add style events []) := by
  by_cases empty : stripped = []
  · rw [nothing empty]
    simpa [empty] using agrees
  · obtain ⟨ev, rfl, silent, closes⟩ := something empty
    simpa [empty] using agrees.shown ev closes silent

theorem current_route (stable : Bool) (specials : List (List Char)) (arrival : Arrival) (a : Assembly) :
    (foundStep (a.openCall.map (·.detectorIndex)) arrival).1 =
      (a.route specials stable arrival).1.openCall.map (·.detectorIndex) := by
  match arrival with
  | .reasoning delta => rfl
  | .content delta => rfl
  | .text unstreamed payload => simp [foundStep, Assembly.route]
  | .fragment unstreamed frag =>
    simp only [Assembly.route, foundStep, ← startsNew_iff, detectorIndex_addParameters]
    by_cases new : a.startsNew frag = true
    · simp only [new, if_true]
      rw [openCall_openUnlessOpen (openCall_close a unstreamed)]
      rfl
    · simp only [new, if_false, Bool.false_eq_true]
      cases open_ : a.openCall with
      | none =>
        rw [openCall_openUnlessOpen open_]
        rfl
      | some call =>
        rw [openUnlessOpen_of_some (by simp [open_]), open_]
        rfl

theorem foundStep_le_starts (stable : Bool) (specials : List (List Char)) (arrival : Arrival) (a : Assembly) :
    (foundStep (a.openCall.map (·.detectorIndex)) arrival).2.length ≤
      starts (a.route specials stable arrival).2 := by
  match arrival with
  | .reasoning delta => exact Nat.zero_le _
  | .content delta => exact Nat.zero_le _
  | .text unstreamed payload => exact Nat.zero_le _
  | .fragment unstreamed frag =>
    simp only [foundStep, ← startsNew_iff, Assembly.route]
    by_cases new : a.startsNew frag = true
    · simp only [new, if_true]
      have opened : ((a.closeOpenCall unstreamed).1.openUnlessOpen stable frag).2 =
          [.toolCallStart (a.closeOpenCall unstreamed).1.callsEmitted frag.name stable] := by
        simp [Assembly.openUnlessOpen]
      rw [opened]
      simp only [starts, List.countP_append, List.countP_singleton, List.length_singleton]
      simp only [if_true]
      omega
    · simp [new]

/-! ## The pieces one by one -/

theorem Agrees.route (agrees : Agrees style stable late a acc) (specials : List (List Char))
    {arrival : Arrival} (admits : a.Admits stable late arrival) :
    Agrees style stable (a.lateAfter specials late arrival) (a.route specials stable arrival).1
      (acc.add style (a.route specials stable arrival).2
        (foundStep (a.openCall.map (·.detectorIndex)) arrival).2) := by
  match arrival with
  | .reasoning delta =>
    simp only [Assembly.route, Assembly.lateAfter, foundStep]
    apply agrees.release
    · intro empty
      simp [empty, Account.add_nil]
    · intro some_
      exact ⟨.reasoningDelta (stripSpecialTokens delta specials), if_neg some_, rfl,
        fun t => by simp [ToolBlocks.step, some_]⟩
  | .content delta =>
    simp only [Assembly.route, Assembly.lateAfter, foundStep]
    apply agrees.release
    · intro empty
      simp [empty, Account.add, ToolBlocks.step, closings]
    · intro some_
      exact ⟨_, rfl, rfl, fun t => by simp [ToolBlocks.step, some_]⟩
  | .text unstreamed payload =>
    simp only [Assembly.route, Assembly.lateAfter, foundStep]
    rw [← List.append_nil ([] : List (Option (List Char))), ← Account.add_add]
    exact (agrees.closeOpenCall admits).releaseText (openCall_close a unstreamed) _ _ _
  | .fragment unstreamed frag =>
    simp only [Assembly.route, Assembly.lateAfter, foundStep, ← startsNew_iff]
    unfold Assembly.Admits at admits
    by_cases new : a.startsNew frag = true
    · simp only [new, if_true] at admits ⊢
      have opened := (agrees.closeOpenCall admits).openUnlessOpen (openCall_close a unstreamed)
        frag
      have added := opened.addParameters frag
      simpa only [Account.add_add, List.append_nil, List.nil_append] using added
    · simp only [new, if_false, Bool.false_eq_true] at admits ⊢
      rw [openUnlessOpen_of_some admits]
      exact agrees.addParameters frag

theorem Agrees.astray_of_route (agrees : Agrees style stable late a acc)
    {arrival : Arrival} (ill : ¬ a.Admits stable late arrival) :
    Astray stable (acc.add style (a.route specials stable arrival).2
      (foundStep (a.openCall.map (·.detectorIndex)) arrival).2) := by
  match arrival with
  | .reasoning delta => exact absurd trivial ill
  | .content delta => exact absurd trivial ill
  | .text unstreamed payload =>
    simp only [Assembly.route, foundStep]
    rw [← List.append_nil ([] : List (Option (List Char))), ← Account.add_add]
    exact (agrees.astray_of_close ill).add style _ [] (Nat.zero_le _)
  | .fragment unstreamed frag =>
    simp only [Assembly.route, foundStep, ← startsNew_iff]
    unfold Assembly.Admits at ill
    by_cases new : a.startsNew frag = true
    · simp only [new, if_true] at ill ⊢
      have closed := agrees.astray_of_close ill
      have opens : ((a.closeOpenCall unstreamed).1.openUnlessOpen stable frag).2 =
          [.toolCallStart (a.closeOpenCall unstreamed).1.callsEmitted frag.name stable] := by
        simp [Assembly.openUnlessOpen]
      have opened := closed.add style
        ((a.closeOpenCall unstreamed).1.openUnlessOpen stable frag).2 [frag.name]
        (by simp [opens, starts])
      have added := opened.add style
        (((a.closeOpenCall unstreamed).1.openUnlessOpen stable frag).1.addParameters frag).2 []
        (Nat.zero_le _)
      simpa only [Account.add_add, List.append_nil, List.nil_append] using added
    · simp only [new, if_false, Bool.false_eq_true] at ill ⊢
      have none_ : a.openCall = none := by simpa using ill
      have opened := agrees.astray_of_open none_ frag
      have added := opened.add style ((a.openUnlessOpen stable frag).1.addParameters frag).2 []
        (Nat.zero_le _)
      simpa only [Account.add_add, List.append_nil, List.nil_append] using added

theorem Agrees.routeAll (agrees : Agrees style stable late a acc)
    {arrivals : List Arrival} (orderly : a.Orderly specials stable late arrivals) :
    Agrees style stable (a.lateAfterAll specials stable late arrivals)
      (a.routeAll specials stable arrivals).1
      (acc.add style (a.routeAll specials stable arrivals).2
        (foundCalls (a.openCall.map (·.detectorIndex)) arrivals)) := by
  induction arrivals generalizing late a acc with
  | nil =>
    simp only [Assembly.routeAll, foundCalls, Account.add_nil]
    exact agrees
  | cons arrival arrivals ih =>
    have later := ih (agrees.route specials orderly.1) orderly.2
    simpa only [Assembly.routeAll, foundCalls, Assembly.lateAfterAll, ← Account.add_add,
      current_route stable specials arrival a] using later

theorem Astray.routeAll (astray : Astray stable acc) (specials : List (List Char))
    (arrivals : List Arrival) (a : Assembly) :
    Astray stable (acc.add style (a.routeAll specials stable arrivals).2
      (foundCalls (a.openCall.map (·.detectorIndex)) arrivals)) := by
  induction arrivals generalizing a acc with
  | nil =>
    simp only [Assembly.routeAll, foundCalls, Account.add_nil]
    exact astray
  | cons arrival arrivals ih =>
    have here := astray.add style _ _ (foundStep_le_starts stable specials arrival a)
    have later := ih here (a.route specials stable arrival).1
    simpa only [Assembly.routeAll, foundCalls, ← Account.add_add,
      current_route stable specials arrival a] using later

theorem Agrees.astray_of_routeAll (agrees : Agrees style stable late a acc)
    {arrivals : List Arrival}
    (ill : ¬ a.Orderly specials stable late arrivals) :
    Astray stable (acc.add style (a.routeAll specials stable arrivals).2
      (foundCalls (a.openCall.map (·.detectorIndex)) arrivals)) := by
  induction arrivals generalizing late a acc with
  | nil => exact absurd trivial ill
  | cons arrival arrivals ih =>
    have later : Astray stable ((acc.add style (a.route specials stable arrival).2
        (foundStep (a.openCall.map (·.detectorIndex)) arrival).2).add style
          ((a.route specials stable arrival).1.routeAll specials stable arrivals).2
          (foundCalls ((a.route specials stable arrival).1.openCall.map (·.detectorIndex))
            arrivals)) := by
      by_cases admits : a.Admits stable late arrival
      · exact ih (agrees.route specials admits) fun orderly =>
          ill ⟨admits, orderly⟩
      · exact (agrees.astray_of_route admits).routeAll specials arrivals _
    simpa only [Assembly.routeAll, foundCalls, ← Account.add_add,
      current_route stable specials arrival a] using later

/-! ## The end of the output -/

theorem Agrees.finalize (agrees : Agrees style stable late a acc) (frags : List ToolCallItem) :
    Agrees style stable late (a.finalize frags).1 (acc.add style (a.finalize frags).2 []) := by
  induction frags generalizing a acc with
  | nil =>
    simp only [Assembly.finalize, Account.add_nil]
    exact agrees
  | cons frag frags ih =>
    have later := ih (agrees.addParameters frag)
    simpa only [Assembly.finalize, Account.add_add, List.append_nil] using later

theorem Agrees.recover (agrees : Agrees style stable late a acc) (none_ : a.openCall = none)
    (items : List ToolCallItem) :
    Agrees style stable late (a.recover items).1
      (acc.add style (a.recover items).2 (items.map (·.name))) ∧
      (a.recover items).1.openCall = none := by
  induction items generalizing a acc with
  | nil =>
    simp only [Assembly.recover, List.map_nil, Account.add_nil]
    exact ⟨agrees, none_⟩
  | cons item items ih =>
    obtain ⟨closed, settled⟩ := agrees.settled none_
    have opened : (acc.add style [.toolCallStart a.callsEmitted item.name true]
        [item.name]).blocks.current = some ⟨a.callsEmitted, style.forwardsAll || true,
          ⟨style.shownName item.name, []⟩⟩ := rfl
    have before : (acc.add style [.toolCallStart a.callsEmitted item.name true]
        [item.name]).blocks.closed = acc.blocks.closed := by
      simp [Account.add, ToolBlocks.step, ToolBlocks.openBlock, ToolBlocks.all, closed]
    have next : Agrees style stable late { a with callsEmitted := a.callsEmitted + 1 }
        (acc.add style [.toolCallStart a.callsEmitted item.name true,
          .toolCallsDelta [⟨a.callsEmitted, item.name, item.parameters⟩]] [item.name]) := by
      have both := run_close_busy style ⟨0, item.name, [], a.callsEmitted⟩ opened
        item.parameters
      rw [Account.add_add] at both
      rw [show [item.name] = [item.name] ++ [] from rfl]
      refine both ▸ .idle none_ rfl ⟨?_, ?_, fun strict => ?_⟩
      · simp only [before]
        simp [settled.names, Account.add]
      · simp [settled.order, Account.add, closings]
      · simp only [before]
        simp [settled.args strict, Account.add, closings]
    have later := ih next none_
    simpa only [Assembly.recover, Account.add_add, List.map_cons, List.cons_append,
      List.nil_append] using later

end

/-! ## Whole generations -/

namespace GenReader
variable {R T : Type} (reader : GenReader R T)

def foundAtEnd (st : Reading R T) : List (Option (List Char)) :=
  match reader.toolParser with
  | some parser =>
    (parser.recoverTruncatedCall (parser.finalizeStream st.tools).2).1.map (·.name)
  | none =>
    match if reader.parseTools then reader.parseToolResponse st.pending else none with
    | some (_, calls) => calls.map (·.name)
    | none => []

def found (replies : List UserReply) (ending : Ending) : List (Option (List Char)) :=
  match reader.readReplies replies ending reader.begin with
  | (arrivals, .inl _) => foundCalls none arrivals
  | (arrivals, .inr (st, _)) =>
    foundCalls none (arrivals ++ (reader.readFlush st).2) ++ reader.foundAtEnd (reader.readFlush st).1

/-- The call that is open at the end of the output may be closed. -/
def EndsWell (st : Reading R T) (arrivals : List Arrival) : Prop :=
  match reader.toolParser with
  | some parser =>
    let (frags, tools) := parser.finalizeStream st.tools
    ((Assembly.start.routeAll reader.specials reader.fragStable arrivals).1.finalize frags).1.ClosesWell
      reader.fragStable
      (Assembly.start.lateAfterAll reader.specials reader.fragStable false arrivals)
      fun index => parser.unstreamedArguments index tools
  | none => True

/-- Nothing is shown between the opening of a call and its close, every fragment belongs to a call, and
what the tool parser knows of the arguments of a call that was cut short goes on from what was sent. A
call that is never closed because of a failure does not matter. -/
def Orderly (replies : List UserReply) (ending : Ending) : Prop :=
  match reader.readReplies replies ending reader.begin with
  | (arrivals, .inl _) =>
    Assembly.start.Orderly reader.specials reader.fragStable false arrivals
  | (arrivals, .inr (st, _)) =>
    Assembly.start.Orderly reader.specials reader.fragStable false
        (arrivals ++ (reader.readFlush st).2) ∧
      reader.EndsWell (reader.readFlush st).1 (arrivals ++ (reader.readFlush st).2)

def NoCalls (arrivals : List Arrival) : Prop :=
  ∀ arrival ∈ arrivals, match arrival with
    | .fragment _ _ => False
    | _ => True

variable {reader}

theorem NoCalls.append {arrivals arrivals' : List Arrival} (first : NoCalls arrivals)
    (second : NoCalls arrivals') : NoCalls (arrivals ++ arrivals') := by
  intro arrival mem
  rcases List.mem_append.mp mem with mem | mem
  · exact first arrival mem
  · exact second arrival mem

theorem noCalls_readReasoning (delta : List Char) : NoCalls (readReasoning delta) := by
  intro arrival mem
  unfold readReasoning at mem
  split_ifs at mem
  · exact absurd mem List.not_mem_nil
  · rw [List.mem_singleton.mp mem]
    trivial

theorem noCalls_readContent (none_ : reader.toolParser = none) (delta : List Char)
    (st : Reading R T) : NoCalls (reader.readContent delta st).2 := by
  intro arrival mem
  unfold readContent at mem
  rw [none_] at mem
  simp only at mem
  split_ifs at mem
  · exact absurd mem List.not_mem_nil
  · exact absurd mem List.not_mem_nil
  · rw [List.mem_singleton.mp mem]
    trivial

theorem noCalls_readOutput (none_ : reader.toolParser = none) (output : List Char)
    (st : Reading R T) : NoCalls (reader.readOutput output st).2 := by
  unfold readOutput
  cases reader.reasoningParser with
  | none => exact noCalls_readContent none_ output st
  | some parser =>
    simp only
    split_ifs
    · exact fun arrival mem => absurd mem List.not_mem_nil
    · exact (noCalls_readReasoning _).append (noCalls_readContent none_ _ _)

theorem noCalls_readFlush (none_ : reader.toolParser = none) (st : Reading R T) :
    NoCalls (reader.readFlush st).2 := by
  unfold readFlush
  cases reader.reasoningParser with
  | none => exact fun arrival mem => absurd mem List.not_mem_nil
  | some parser => exact (noCalls_readReasoning _).append (noCalls_readContent none_ _ _)

theorem noCalls_readReplies (none_ : reader.toolParser = none) (replies : List UserReply)
    (ending : Ending) (st : Reading R T) : NoCalls (reader.readReplies replies ending st).1 := by
  induction replies generalizing st with
  | nil =>
    unfold readReplies
    cases ending <;> exact fun arrival mem => absurd mem List.not_mem_nil
  | cons reply replies ih =>
    unfold readReplies
    cases truthy reply.error with
    | some message => exact fun arrival mem => absurd mem List.not_mem_nil
    | none =>
      simp only
      split_ifs
      · exact noCalls_readOutput none_ _ _
      · exact (noCalls_readOutput none_ _ _).append (ih _)

theorem NoCalls.routeAll {arrivals : List Arrival} (none_ : NoCalls arrivals)
    (specials : List (List Char)) (stable late : Bool) {a : Assembly} (idle : a.openCall = none) :
    (a.routeAll specials stable arrivals).1.openCall = none ∧
      a.Orderly specials stable late arrivals := by
  induction arrivals generalizing a late with
  | nil => exact ⟨idle, trivial⟩
  | cons arrival arrivals ih =>
    have here : (a.route specials stable arrival).1.openCall = none ∧
        a.Admits stable late arrival := by
      have single := none_ arrival List.mem_cons_self
      match arrival with
      | .reasoning delta => exact ⟨idle, trivial⟩
      | .content delta => exact ⟨idle, trivial⟩
      | .text unstreamed payload =>
        exact ⟨by simp [Assembly.route], fun call open_ => by simp [idle] at open_⟩
      | .fragment unstreamed frag => exact absurd single id
    obtain ⟨closed, orderly⟩ := ih (fun arrival' mem => none_ arrival' (List.mem_cons_of_mem _ mem))
      (a.lateAfter specials late arrival) here.1
    exact ⟨closed, here.2, orderly⟩

end GenReader

section
variable {R T : Type} {reader : GenReader R T} {style : ToolStyle} {stable late : Bool} {a : Assembly}
  {acc : Account}

theorem foldl_call {t : ToolBlocks} (idle : t.current = none) (calls : List ToolCallItem) :
    calls.foldl (ToolBlocks.call style) t =
      ⟨t.closed ++ calls.map fun call => ⟨style.shownName call.name, call.parameters⟩, none⟩ := by
  induction calls generalizing t with
  | nil =>
    obtain ⟨closed, current⟩ := t
    obtain rfl : current = none := idle
    simp
  | cons call calls ih =>
    have single : t.call style call =
        ⟨t.closed ++ [⟨style.shownName call.name, call.parameters⟩], none⟩ := by
      simp [ToolBlocks.call, idle, ToolBlocks.openBlock, ToolBlocks.extend, ToolBlocks.close,
        ToolBlocks.all]
    rw [List.foldl_cons, single, ih rfl]
    simp

def Agreed (style : ToolStyle) (stable : Bool) (acc : Account) : Prop :=
  ∃ late a, Agrees style stable late a acc

theorem Agrees.calls (agrees : Agrees style stable late a acc) (none_ : a.openCall = none)
    (calls : List ToolCallItem) :
    Agrees style stable late a (acc.add style [.toolCallsDelta calls] (calls.map (·.name))) := by
  obtain ⟨closed, settled⟩ := agrees.settled none_
  have added : acc.add style [.toolCallsDelta calls] (calls.map (·.name)) =
      ⟨⟨acc.blocks.closed ++ calls.map fun call => ⟨style.shownName call.name, call.parameters⟩,
        none⟩, acc.found ++ calls.map (·.name), acc.closed ++ calls⟩ := by
    simp [Account.add, ToolBlocks.step, foldl_call closed, closings]
  rw [added]
  refine .idle none_ rfl ⟨?_, ?_, fun strict => ?_⟩
  · simp [settled.names]
  · simp [settled.order]
  · simp [settled.args strict]

theorem Agrees.done (agrees : Agrees style stable late a acc) (finishReason : List Char)
    (promptTokens completionTokens cachedTokens : Nat) (matchedStop : Option (List Char)) :
    Agreed style stable (acc.add style
      [.genDone finishReason promptTokens completionTokens matchedStop cachedTokens] []) :=
  ⟨true, a, agrees.shown _ (fun _ => rfl) rfl⟩

theorem Agrees.drain (reader : GenReader R T) (agrees : Agrees style stable late a acc) (parser : StreamToolParser T) (tools : T)
    (finishReason : List Char)
    (well : (a.finalize (parser.finalizeStream tools).1).1.ClosesWell stable late
      fun index => parser.unstreamedArguments index (parser.finalizeStream tools).2) :
    ∃ late' a', Agrees style stable late' a' (acc.add style (reader.drain parser tools finishReason a).1
      ((parser.recoverTruncatedCall (parser.finalizeStream tools).2).1.map (·.name))) := by
  have closed := (agrees.finalize (parser.finalizeStream tools).1).closeOpenCall well
  obtain ⟨recovered, idle⟩ := closed.recover (openCall_close _ _)
    (parser.recoverTruncatedCall (parser.finalizeStream tools).2).1
  have text := recovered.releaseText idle reader.specials
    (parser.finishStream (parser.recoverTruncatedCall (parser.finalizeStream tools).2).2) false
  unfold GenReader.drain
  simp only [Account.add_add, List.append_nil, List.nil_append] at recovered text ⊢
  split_ifs
  · exact ⟨_, _, by simpa only [List.append_nil] using recovered⟩
  · exact ⟨_, _, text⟩

theorem length_le_starts_recover (a : Assembly) (items : List ToolCallItem) :
    items.length ≤ starts (a.recover items).2 := by
  induction items generalizing a with
  | nil => exact Nat.zero_le _
  | cons item items ih =>
    have later := ih { a with callsEmitted := a.callsEmitted + 1 }
    simp only [Assembly.recover, starts, List.countP_cons, List.length_cons] at later ⊢
    simp only [if_true]
    omega

theorem drain_events (parser : StreamToolParser T) (tools : T) (finishReason : List Char)
    (a : Assembly) :
    ∃ text, (reader.drain parser tools finishReason a).1 =
      (a.finalize (parser.finalizeStream tools).1).2 ++
      ((a.finalize (parser.finalizeStream tools).1).1.closeOpenCall fun index =>
        parser.unstreamedArguments index (parser.finalizeStream tools).2).2 ++
      (((a.finalize (parser.finalizeStream tools).1).1.closeOpenCall fun index =>
        parser.unstreamedArguments index (parser.finalizeStream tools).2).1.recover
          (parser.recoverTruncatedCall (parser.finalizeStream tools).2).1).2 ++ text :=
  ⟨_, rfl⟩

theorem length_le_starts_drain (reader : GenReader R T) (parser : StreamToolParser T) (tools : T) (finishReason : List Char)
    (a : Assembly) :
    ((parser.recoverTruncatedCall (parser.finalizeStream tools).2).1.map (·.name)).length ≤
      starts (reader.drain parser tools finishReason a).1 := by
  have recovered := length_le_starts_recover ((a.finalize (parser.finalizeStream tools).1).1.closeOpenCall
    fun index => parser.unstreamedArguments index (parser.finalizeStream tools).2).1
    (parser.recoverTruncatedCall (parser.finalizeStream tools).2).1
  obtain ⟨text, parts⟩ := @drain_events R T reader parser tools finishReason a
  rw [parts, List.length_map]
  simp only [starts, List.countP_append] at recovered ⊢
  omega

theorem Agrees.astray_of_drain (reader : GenReader R T) (agrees : Agrees style stable late a acc)
    (parser : StreamToolParser T)
    (tools : T) (finishReason : List Char)
    (ill : ¬ (a.finalize (parser.finalizeStream tools).1).1.ClosesWell stable late
      fun index => parser.unstreamedArguments index (parser.finalizeStream tools).2) :
    Astray stable (acc.add style (reader.drain parser tools finishReason a).1
      ((parser.recoverTruncatedCall (parser.finalizeStream tools).2).1.map (·.name))) := by
  have closed := (agrees.finalize (parser.finalizeStream tools).1).astray_of_close ill
  obtain ⟨text, parts⟩ := @drain_events R T reader parser tools finishReason a
  rw [parts]
  have recovered := closed.add style (((a.finalize (parser.finalizeStream tools).1).1.closeOpenCall
    fun index => parser.unstreamedArguments index (parser.finalizeStream tools).2).1.recover
      (parser.recoverTruncatedCall (parser.finalizeStream tools).2).1).2
    ((parser.recoverTruncatedCall (parser.finalizeStream tools).2).1.map (·.name))
    (by simpa using length_le_starts_recover _ _)
  have all := recovered.add style text [] (Nat.zero_le _)
  simpa only [Account.add_add, List.append_nil, List.nil_append] using all

theorem Agrees.parsePending (agrees : Agrees style stable late a acc) (none_ : a.openCall = none)
    (parserNone : reader.toolParser = none) (st : Reading R T) (finishReason : List Char) :
    ∃ late', Agrees style stable late' a (acc.add style
      (reader.parsePending st.pending finishReason).1 (reader.foundAtEnd st)) := by
  unfold GenReader.parsePending GenReader.foundAtEnd
  rw [parserNone]
  simp only
  have shown : ∀ text : List Char, Agrees style stable true a
      (acc.add style [.contentDelta text] []) := by
    intro text
    by_cases empty : text = []
    · have same : acc.add style [.contentDelta text] [] = acc := by
        simp [Account.add, ToolBlocks.step, empty, closings]
      rw [same]
      exact agrees.of_none none_ none_ true
    · exact agrees.shown _ (fun t => by simp [ToolBlocks.step, empty]) rfl
  cases (if reader.parseTools = true then reader.parseToolResponse st.pending else none) with
  | none =>
    simp only
    split_ifs
    · exact ⟨true, shown _⟩
    · exact ⟨late, by rwa [Account.add_nil]⟩
  | some parsed =>
    obtain ⟨normalText, calls⟩ := parsed
    simp only
    split_ifs
    · exact ⟨late, agrees.calls none_ calls⟩
    · have both := (shown (stripSpecialTokens normalText reader.specials)).calls none_ calls
      rw [Account.add_add] at both
      exact ⟨true, both⟩

theorem account_generateEvents (style : ToolStyle) (reader : GenReader R T) (replies : List UserReply)
    (ending : Ending) :
    (reader.Orderly replies ending → Agreed style reader.fragStable (Account.add style
      (reader.generateEvents replies ending).1 (reader.found replies ending) ⟨.start, [], []⟩)) ∧
    (¬ reader.Orderly replies ending → Astray reader.fragStable (Account.add style
      (reader.generateEvents replies ending).1 (reader.found replies ending) ⟨.start, [], []⟩)) := by
  have start : Agrees style reader.fragStable false Assembly.start ⟨.start, [], []⟩ :=
    .idle rfl rfl ⟨rfl, rfl, fun _ => rfl⟩
  unfold GenReader.Orderly GenReader.generateEvents GenReader.found
  match read : reader.readReplies replies ending reader.begin with
  | (arrivals, .inl error) =>
    exact ⟨fun orderly => ⟨_, _, start.routeAll orderly⟩, fun ill => start.astray_of_routeAll ill⟩
  | (arrivals, .inr (st, finishReason, matchedStop)) =>
    have whole : ∀ (events tail found found' : _) (done : GenEvent),
        ((Account.add style events found ⟨.start, [], []⟩).add style tail found').add style [done] [] =
          Account.add style (events ++ tail ++ [done]) (found ++ found') ⟨.start, [], []⟩ := by
      intro events tail found found' done
      rw [Account.add_add, Account.add_add, List.append_nil, List.append_assoc]
    simp only [GenReader.EndsWell, GenReader.foundAtEnd, ← whole]
    cases tool : reader.toolParser with
    | some parser =>
      simp only
      constructor
      · rintro ⟨orderly, well⟩
        obtain ⟨late', a', drained⟩ := (start.routeAll orderly).drain reader parser
          (reader.readFlush st).1.tools ((GenReader.truthy finishReason).getD "stop".toList) well
        exact drained.done _ _ _ _ _
      · intro ill
        apply Astray.add _ style _ [] (Nat.zero_le _)
        by_cases orderly : Assembly.start.Orderly reader.specials reader.fragStable false
            (arrivals ++ (reader.readFlush st).2)
        · exact (start.routeAll orderly).astray_of_drain reader parser _ _ fun well =>
            ill ⟨orderly, well⟩
        · exact (start.astray_of_routeAll orderly).add style _ _
            (length_le_starts_drain reader parser _ _ _)
    | none =>
      have noCalls : GenReader.NoCalls (arrivals ++ (reader.readFlush st).2) := by
        have replies' := GenReader.noCalls_readReplies tool replies ending reader.begin
        rw [read] at replies'
        exact replies'.append (GenReader.noCalls_readFlush tool st)
      obtain ⟨closed, orderly⟩ := noCalls.routeAll reader.specials reader.fragStable false
        (a := Assembly.start) rfl
      simp only
      refine ⟨fun _ => ?_, fun ill => absurd ⟨orderly, trivial⟩ ill⟩
      obtain ⟨late', parsed⟩ := (start.routeAll orderly).parsePending closed tool
        (reader.readFlush st).1 ((GenReader.truthy finishReason).getD "stop".toList)
      simp only [GenReader.foundAtEnd, tool] at parsed
      exact parsed.done _ _ _ _ _

/-- Every call that is found reaches the client once: whatever keepalives stand between the events, and
however the stream ends, the tool blocks of a Messages stream and the calls of a Responses stream are
those of the calls. -/
def EachCallOnce (reader : GenReader R T) (replies : List UserReply) (ending : Ending)
    (anthropic : AnthropicSetup) (responses : ResponsesSetup) : Prop :=
  ∀ items : List StreamItem,
    items.filterMap StreamItem.event? = (reader.generateEvents replies ending).1 →
    ∀ ended : Option Ending,
      DeliveredOnce AnthropicState.toolStyle reader.fragStable (reader.found replies ending)
        (closings (reader.generateEvents replies ending).1)
        (anthropicToolUses ((anthropicEventStream anthropic).frames items ended)) ∧
      DeliveredOnce ResponsesState.toolStyle reader.fragStable (reader.found replies ending)
        (closings (reader.generateEvents replies ending).1)
        (responsesFunctionCalls ((responsesStreamGenerator responses).frames items ended))

end

/-- A whole call of a function without a later one. -/
def noteCall : List Char :=
  "<|channel|>commentary to=functions.f<|message|>\x7b\"a\":1\x7d<|call|>".toList

def noteThought : List Char := "<|start|>assistant<|channel|>analysis<|message|>hm".toList

/-- What the parsers of Harmony output make of a call and of thoughts: the call is content for the tool
parser, which gives its name and its arguments, and knows them at the end. -/
def harmonyReader : GenReader Unit Unit :=
  { reasoningParser := some
      { parseStreamChunk := fun text st =>
          if text = noteThought then (("hm".toList, []), st) else (([], text), st)
        flush := fun _ => ([], []) }
    toolParser := some
      { parseStreamEvents := fun text st =>
          if text = noteCall then
            ([.calls [⟨0, some ['f'], []⟩, ⟨0, none, "\x7b\"a\":1\x7d".toList⟩]], st)
          else ([], st)
        unstreamedArguments := fun _ _ => some "\x7b\"a\": 1\x7d".toList
        finalizeStream := fun st => ([], st)
        recoverTruncatedCall := fun st => ([], st)
        finishStream := fun _ => []
        argsFragmentsPrefixStable := true }
    reasoningStart := (), toolStart := (), parseTools := true
    parseToolResponse := fun _ => none, specials := [] }

def noteReply (output : List Char) (finished : Bool) : UserReply :=
  { error := none, errorCode := none, promptTokensDelta := 0, completionTokensDelta := 1
    cachedTokens := 0, incrementalOutput := output, finished := finished, finishReason := none
    matchedStop := none }

end FreeSwarm.Server
