import FreeSwarm.Server.Frontend

/-!
# Delivery of the replies

A consumer receives the replies of its uid once and in order, up to the terminal one, and ends, as long
as `abort_user` removes the entries only of a uid whose consumer does not need them any more, and no
consumer is cancelled before its first step without such a call under way. The calls that prepare a
stop do not heed this: a consumer that waits when its entries are removed waits for ever.
-/

namespace FreeSwarm.Server.FrontendManager

open FreeSwarm.Foundation

/-! ## Up to the terminal reply -/

def Unfinished (replies : List UserReply) : Prop := ∀ reply ∈ replies, reply.finished = false

/-- The replies up to the first terminal one. -/
def cut : List UserReply → List UserReply
  | [] => []
  | reply :: replies => if reply.finished then [reply] else reply :: cut replies

variable {before : List UserReply}

theorem cut_append (unfinished : Unfinished before)
    (later : List UserReply) : cut (before ++ later) = before ++ cut later := by
  induction before with
  | nil => rfl
  | cons reply before ih =>
    have first : ¬reply.finished = true := by simp [unfinished reply List.mem_cons_self]
    have rest : Unfinished before := fun other mem => unfinished other (List.mem_cons_of_mem _ mem)
    rw [List.cons_append, cut, if_neg first, ih rest, List.cons_append]

attribute [local grind =] cut

theorem cut_prefix (unfinished : Unfinished before) (ack : UserReply)
    (later : List UserReply) : before ++ [ack] <+: cut (before ++ [ack] ++ later) := by
  rw [List.append_assoc, cut_append unfinished]
  apply (List.prefix_append_right_inj before).mpr
  rw [List.singleton_append, cut]
  split
  · exact List.prefix_refl _
  · exact ⟨cut later, rfl⟩

theorem cut_whole (unfinished : Unfinished before) {last : UserReply}
    (finished : last.finished = true) (later : List UserReply) :
    cut (before ++ [last] ++ later) = before ++ [last] := by
  rw [List.append_assoc, cut_append unfinished, List.singleton_append, cut, if_pos finished]

theorem unfinished_append {before later : List UserReply} :
    Unfinished (before ++ later) ↔ Unfinished before ∧ Unfinished later := by
  simp only [Unfinished, List.mem_append, or_imp, forall_and]

theorem unfinished_singleton {reply : UserReply} :
    Unfinished [reply] ↔ reply.finished = false := by
  simp [Unfinished]

/-- Behind a terminal reply, nothing is added to what is to be received. -/
theorem cut_stable {replies : List UserReply} (last : ¬Unfinished replies)
    (later : List UserReply) : cut (replies ++ later) = cut replies := by
  induction replies with
  | nil => exact absurd (fun _ mem => by cases mem) last
  | cons reply replies ih =>
    rw [List.cons_append, cut, cut]
    split
    · rfl
    · next more =>
      rw [ih]
      intro unfinished
      apply last
      intro other mem
      cases List.mem_cons.mp mem with
      | inl same => rw [same]; simpa using more
      | inr mem => exact unfinished other mem

/-! ## Sessions in order -/

namespace Session

variable (s : Session)

def queue : List UserReply := s.ackMap.getD []

/-- The terminal reply is received, last. -/
def Whole : Prop :=
  ∃ before last later, s.received = before ++ [last] ∧ Unfinished before ∧ last.finished = true ∧
    s.arrived = s.received ++ later

/-- How what was received, what is in hand and what is in the list make up what arrived. -/
def Coherent : Prop :=
  match s.consumer with
  | .idle => s.cancelled = false ∧ s.received = [] ∧ s.eventMap = true ∧ s.arrived = s.queue
  | .waiting =>
    s.cancelled = false ∧ Unfinished s.received ∧ s.eventMap = true ∧
      s.arrived = s.received ++ s.queue
  | .yielding ack pending =>
    s.cancelled = false ∧ (∃ before, s.received = before ++ [ack] ∧ Unfinished before) ∧
      ∃ later, s.arrived = s.received ++ (pending ++ later) ∧
        (Unfinished (ack :: pending) → s.eventMap = true ∧ later = s.queue)
  | .closing => s.cancelled = true ∨ s.Whole
  | .closed => (s.cancelled = true ∨ s.Whole) ∧ s.eventMap = false
  | .dropped => s.cancelled = true ∧ (s.eventMap = true → 0 < s.aborts)
  | .failed => False

/-- The entries, the event and the list agree, and so does the consumer. -/
structure Good : Prop where
  both : s.ackMap.isSome = s.eventMap
  sets : s.eventMap = true → s.event = !s.queue.isEmpty
  tidy : s.aborted = true → s.eventMap = false
  coherent : s.Coherent

/-- The consumer will take replies from the list. -/
def needsQueue : Bool :=
  match s.consumer with
  | .idle | .waiting => true
  | .yielding ack pending => (ack :: pending).all (!·.finished)
  | _ => false

/-- When something may happen to a session: the entries are removed only when they are not needed, and
a consumer that did not start is cancelled only when they will be removed. -/
def Permits : Act → Prop
  | .delete => s.needsQueue = false
  | .cancel => s.consumer = .idle → 0 < s.aborts
  | _ => True

variable {s s' : Session}

theorem good_fresh : fresh.Good where
  both := rfl
  sets _ := rfl
  tidy no := absurd no Bool.false_ne_true
  coherent := ⟨rfl, rfl, rfl, rfl⟩

/-! ## What each step keeps -/

theorem good_start (good : s.Good) (acts : s.start = some s') : s'.Good := by
  unfold start at acts
  split at acts
  · next here =>
    cases acts
    have coherent := good.coherent
    simp only [Coherent, here] at coherent
    obtain ⟨cancelled, received, there, arrived⟩ := coherent
    refine ⟨good.both, good.sets, good.tidy, ?_⟩
    simp only [there, if_true, Coherent]
    refine ⟨cancelled, ?_, trivial, ?_⟩
    · intro reply mem
      rw [received] at mem
      cases mem
    · rw [received]
      exact arrived
  · cases acts

theorem good_wake (good : s.Good) (acts : s.wake = some s') : s'.Good := by
  unfold wake at acts
  split at acts
  · next here =>
    have coherent := good.coherent
    simp only [Coherent, here] at coherent
    obtain ⟨cancelled, unfinished, there, arrived⟩ := coherent
    have listed := good.both.trans there
    split at acts
    · next set =>
      cases list : s.ackMap with
      | none =>
        rw [list] at listed
        cases listed
      | some replies =>
        rw [list] at acts
        cases replies with
        | nil =>
          have sets := good.sets there
          simp [set, queue, list] at sets
        | cons ack pending =>
          cases acts
          have queue_ : s.queue = ack :: pending := by rw [queue, list, Option.getD_some]
          refine ⟨there.symm, fun _ => rfl, good.tidy, cancelled, ⟨s.received, rfl, unfinished⟩,
            [], ?_, fun _ => ⟨there, rfl⟩⟩
          show s.arrived = s.received ++ [ack] ++ (pending ++ [])
          rw [arrived, queue_, List.append_nil, List.append_assoc, List.singleton_append]
    · cases acts
  · cases acts

theorem good_next (good : s.Good) (acts : s.next = some s') : s'.Good := by
  unfold next at acts
  split at acts
  · next ack later pending here =>
    have coherent := good.coherent
    simp only [Coherent, here] at coherent
    obtain ⟨cancelled, ⟨before, received, unfinished⟩, rest, arrived, needs⟩ := coherent
    obtain ⟨more, rfl⟩ := of_unless acts
    have more : ack.finished = false := by simpa using more
    have all : Unfinished s.received := by
      rw [received, unfinished_append]
      exact ⟨unfinished, unfinished_singleton.mpr more⟩
    refine ⟨good.both, good.sets, good.tidy, cancelled, ⟨s.received, rfl, all⟩, rest, ?_, ?_⟩
    · show s.arrived = s.received ++ [later] ++ (pending ++ rest)
      rw [arrived, List.append_assoc, List.singleton_append, List.cons_append]
    · intro still
      apply needs
      intro reply mem
      cases List.mem_cons.mp mem with
      | inl same => rw [same, more]
      | inr mem => exact still reply mem
  · next ack here =>
    have coherent := good.coherent
    simp only [Coherent, here] at coherent
    obtain ⟨cancelled, ⟨before, received, unfinished⟩, rest, arrived, needs⟩ := coherent
    split at acts
    · next last =>
      cases acts
      exact ⟨rfl, fun no => absurd no Bool.false_ne_true, fun _ => rfl,
        .inr ⟨before, ack, rest, received, unfinished, last, arrived⟩, rfl⟩
    · next more =>
      cases acts
      have more : ack.finished = false := by simpa using more
      obtain ⟨there, same⟩ := needs (unfinished_singleton.mpr more)
      refine ⟨good.both, good.sets, good.tidy, cancelled, ?_, there, ?_⟩
      · show Unfinished s.received
        rw [received, unfinished_append]
        exact ⟨unfinished, unfinished_singleton.mpr more⟩
      · show s.arrived = s.received ++ s.queue
        rw [arrived, same, List.nil_append]
  · cases acts

theorem good_stop (good : s.Good) (acts : s.stop = some s') : s'.Good := by
  unfold stop at acts
  split at acts
  · next ack pending here =>
    have coherent := good.coherent
    simp only [Coherent, here] at coherent
    obtain ⟨cancelled, ⟨before, received, unfinished⟩, rest, arrived, -⟩ := coherent
    obtain ⟨last, rfl⟩ := of_guard acts
    exact ⟨good.both, good.sets, good.tidy,
      .inr ⟨before, ack, pending ++ rest, received, unfinished, last, arrived⟩⟩
  · cases acts

theorem good_cancel (good : s.Good) (permits : s.Permits .cancel) (acts : s.cancel = some s') :
    s'.Good := by
  unfold cancel at acts
  split at acts
  · next here =>
    cases acts
    exact ⟨good.both, good.sets, good.tidy, rfl, fun _ => permits here⟩
  · next here =>
    cases acts
    exact ⟨rfl, fun no => absurd no Bool.false_ne_true, fun _ => rfl, .inl rfl, rfl⟩
  · next ack pending here =>
    cases acts
    exact ⟨good.both, good.sets, good.tidy, .inl rfl⟩
  · cases acts

theorem good_close (good : s.Good) (acts : s.close = some s') : s'.Good := by
  unfold close at acts
  split at acts
  · next here =>
    cases acts
    have coherent := good.coherent
    simp only [Coherent, here] at coherent
    exact ⟨rfl, fun no => absurd no Bool.false_ne_true, fun _ => rfl, coherent, rfl⟩
  · cases acts

theorem good_abort (good : s.Good) : s.abort.Good := by
  refine ⟨good.both, good.sets, good.tidy, ?_⟩
  have coherent := good.coherent
  cases here : s.consumer with
  | dropped =>
    simp only [Coherent, here] at coherent
    simp only [Coherent, abort, here]
    exact ⟨coherent.1, fun _ => Nat.succ_pos _⟩
  | failed => simp only [Coherent, here] at coherent
  | _ =>
    simp only [Coherent, here] at coherent
    simp only [Coherent, abort, here]
    exact coherent

theorem good_delete (good : s.Good) (permits : s.needsQueue = false) (acts : s.delete = some s') :
    s'.Good := by
  obtain ⟨-, rfl⟩ := of_guard acts
  refine ⟨rfl, fun no => absurd no Bool.false_ne_true, fun _ => rfl, ?_⟩
  have coherent := good.coherent
  cases here : s.consumer with
  | idle => simp [needsQueue, here] at permits
  | waiting => simp [needsQueue, here] at permits
  | yielding ack pending =>
    simp only [Coherent, here] at coherent
    obtain ⟨cancelled, received, rest, arrived, -⟩ := coherent
    simp only [Coherent, pop]
    refine ⟨cancelled, received, rest, arrived, fun unfinished => ?_⟩
    -- the terminal reply is in hand
    simp only [needsQueue, here, List.all_eq_false] at permits
    obtain ⟨reply, mem, last⟩ := permits
    rw [unfinished reply mem] at last
    exact absurd rfl last
  | closing =>
    simp only [Coherent, here] at coherent
    simp only [Coherent, pop]
    exact coherent
  | closed =>
    simp only [Coherent, here] at coherent
    simp only [Coherent, pop]
    exact ⟨coherent.1, trivial⟩
  | dropped =>
    simp only [Coherent, here] at coherent
    simp only [Coherent, pop]
    exact ⟨coherent.1, fun no => absurd no Bool.false_ne_true⟩
  | failed =>
    simp only [Coherent, here] at coherent

theorem good_act (good : s.Good) (act : Act) (permits : s.Permits act)
    (acts : s.act act = some s') : s'.Good := by
  cases act with
  | start => exact good_start good acts
  | wake => exact good_wake good acts
  | next => exact good_next good acts
  | stop => exact good_stop good acts
  | cancel => exact good_cancel good permits acts
  | close => exact good_close good acts
  | abort =>
    cases acts
    exact good_abort good
  | delete => exact good_delete good permits acts

theorem Whole.more {t : Session} (whole : s.Whole) (later : List UserReply)
    (received : t.received = s.received) (arrived : t.arrived = s.arrived ++ later) : t.Whole := by
  obtain ⟨before, last, rest, all, unfinished, finished, came⟩ := whole
  exact ⟨before, last, rest ++ later, received.trans all, unfinished, finished, by
    rw [arrived, received, came, List.append_assoc]⟩

theorem good_listen (good : s.Good) (reply : UserReply) : ∃ s', s.listen reply = some s' ∧ s'.Good := by
  have coherent := good.coherent
  unfold listen
  cases list : s.ackMap with
  | none =>
    have gone : s.eventMap = false := by rw [← good.both, list]; rfl
    refine ⟨_, rfl, good.both, fun there => ?_, good.tidy, ?_⟩
    · rw [show (s.observe reply).eventMap = s.eventMap from rfl, gone] at there
      cases there
    · cases here : s.consumer with
      | idle | waiting =>
        simp only [Coherent, here, gone] at coherent
        exact absurd coherent.2.2.1 Bool.false_ne_true
      | yielding ack pending =>
        simp only [Coherent, here, gone] at coherent
        obtain ⟨cancelled, received, rest, arrived, needs⟩ := coherent
        simp only [Coherent, observe, here]
        refine ⟨cancelled, received, rest ++ [reply], ?_, fun unfinished => ?_⟩
        · rw [arrived]
          simp only [List.append_assoc]
        · exact absurd (needs unfinished).1 Bool.false_ne_true
      | closing =>
        simp only [Coherent, here] at coherent
        simp only [Coherent, observe, here]
        exact coherent.imp_right fun whole => whole.more [reply] rfl rfl
      | closed =>
        simp only [Coherent, here] at coherent
        simp only [Coherent, observe, here]
        exact ⟨coherent.1.imp_right fun whole => whole.more [reply] rfl rfl, coherent.2⟩
      | dropped =>
        simp only [Coherent, here] at coherent
        simp only [Coherent, observe, here]
        exact coherent
      | failed => simp only [Coherent, here] at coherent
  | some pending =>
    have there : s.eventMap = true := by rw [← good.both, list]; rfl
    have queue_ : s.queue = pending := by rw [queue, list, Option.getD_some]
    dsimp only
    rw [if_pos there]
    refine ⟨_, rfl, ?_, fun _ => ?_, good.tidy, ?_⟩
    · rw [show (s.observe reply).eventMap = s.eventMap from rfl, there]
      rfl
    · simp [queue]
    · cases here : s.consumer with
      | idle =>
        simp only [Coherent, here] at coherent
        obtain ⟨cancelled, received, -, arrived⟩ := coherent
        simp only [Coherent, observe, here, queue]
        refine ⟨cancelled, received, there, ?_⟩
        rw [arrived, queue_, Option.getD_some]
      | waiting =>
        simp only [Coherent, here] at coherent
        obtain ⟨cancelled, received, -, arrived⟩ := coherent
        simp only [Coherent, observe, here, queue]
        refine ⟨cancelled, received, there, ?_⟩
        rw [arrived, queue_, Option.getD_some, List.append_assoc]
      | yielding ack held =>
        simp only [Coherent, here] at coherent
        obtain ⟨cancelled, received, rest, arrived, needs⟩ := coherent
        simp only [Coherent, observe, here, queue]
        refine ⟨cancelled, received, rest ++ [reply], ?_, fun unfinished => ⟨there, ?_⟩⟩
        · rw [arrived]
          simp only [List.append_assoc]
        · rw [(needs unfinished).2, queue_, Option.getD_some]
      | closing =>
        simp only [Coherent, here] at coherent
        simp only [Coherent, observe, here]
        exact coherent.imp_right fun whole => whole.more [reply] rfl rfl
      | closed =>
        simp only [Coherent, here, there] at coherent
        cases coherent.2
      | dropped =>
        simp only [Coherent, here] at coherent
        simp only [Coherent, observe, here]
        exact coherent
      | failed => simp only [Coherent, here] at coherent

/-! ## What the consumer gets -/

/-- The consumer of a uid gets its replies. -/
structure Delivered (s : Session) : Prop where
  ordered : s.cancelled = false → s.received <+: cut s.arrived
  unfailed : s.consumer ≠ .failed
  kept : s.needsQueue = true → s.ackMap.isSome = true ∧ s.eventMap = true
  waits : s.consumer = .waiting → s.event = false →
    s.received = s.arrived ∧ Unfinished s.arrived
  complete : s.cancelled = false → s.consumer = .closing ∨ s.consumer = .closed →
    s.received = cut s.arrived ∧ ¬Unfinished s.arrived
  tidy : s.consumer = .closed ∨ s.aborted = true → s.ackMap = none ∧ s.eventMap = false
  dropped : s.consumer = .dropped → s.ackMap = none ∧ s.eventMap = false ∨ 0 < s.aborts

theorem Good.gone (good : s.Good) (none_ : s.eventMap = false) :
    s.ackMap = none ∧ s.eventMap = false := by
  have both := good.both
  rw [none_, Option.isSome_eq_false_iff, Option.isNone_iff_eq_none] at both
  exact ⟨both, none_⟩

theorem Good.there (good : s.Good) (needs : s.needsQueue = true) : s.eventMap = true := by
  have coherent := good.coherent
  cases here : s.consumer with
  | idle | waiting =>
    simp only [Coherent, here] at coherent
    exact coherent.2.2.1
  | yielding ack pending =>
    simp only [Coherent, here] at coherent
    obtain ⟨-, -, rest, -, kept⟩ := coherent
    simp only [needsQueue, here, List.all_eq_true, Bool.not_eq_true'] at needs
    exact (kept needs).1
  | _ => simp [needsQueue, here] at needs

theorem Whole.all (whole : s.Whole) : s.received = cut s.arrived ∧ ¬Unfinished s.arrived := by
  obtain ⟨before, last, later, received, unfinished, finished, arrived⟩ := whole
  constructor
  · rw [arrived, received, cut_whole unfinished finished]
  · intro none_
    have open_ : last.finished = false := none_ last (by simp [arrived, received])
    rw [finished] at open_
    cases open_

theorem Good.ordered (good : s.Good) (active : s.cancelled = false) :
    s.received <+: cut s.arrived := by
  have coherent := good.coherent
  cases here : s.consumer with
  | idle =>
    simp only [Coherent, here] at coherent
    rw [coherent.2.1]
    exact List.nil_prefix
  | waiting =>
    simp only [Coherent, here] at coherent
    obtain ⟨-, unfinished, -, arrived⟩ := coherent
    rw [arrived, cut_append unfinished]
    exact List.prefix_append _ _
  | yielding ack pending =>
    simp only [Coherent, here] at coherent
    obtain ⟨-, ⟨before, received, unfinished⟩, rest, arrived, -⟩ := coherent
    rw [arrived, received]
    exact cut_prefix unfinished ack _
  | closing =>
    simp only [Coherent, here, active, Bool.false_eq_true, false_or] at coherent
    rw [← coherent.all.1]
  | closed =>
    simp only [Coherent, here, active, Bool.false_eq_true, false_or] at coherent
    rw [← coherent.1.all.1]
  | dropped =>
    simp only [Coherent, here, active] at coherent
    exact absurd coherent.1 Bool.false_ne_true
  | failed => simp only [Coherent, here] at coherent

theorem Good.complete (good : s.Good) (active : s.cancelled = false)
    (ends : s.consumer = .closing ∨ s.consumer = .closed) :
    s.received = cut s.arrived ∧ ¬Unfinished s.arrived := by
  have coherent := good.coherent
  cases ends with
  | inl here =>
    simp only [Coherent, here, active, Bool.false_eq_true, false_or] at coherent
    exact coherent.all
  | inr here =>
    simp only [Coherent, here, active, Bool.false_eq_true, false_or] at coherent
    exact coherent.1.all

theorem Good.waits (good : s.Good) (here : s.consumer = .waiting) (clear : s.event = false) :
    s.received = s.arrived ∧ Unfinished s.arrived := by
  have coherent := good.coherent
  simp only [Coherent, here] at coherent
  obtain ⟨-, unfinished, there, arrived⟩ := coherent
  have sets := good.sets there
  rw [clear, eq_comm, Bool.not_eq_false', List.isEmpty_iff] at sets
  rw [sets, List.append_nil] at arrived
  rw [arrived]
  exact ⟨rfl, unfinished⟩

theorem Good.delivered (good : s.Good) : s.Delivered where
  ordered := good.ordered
  unfailed failed := by
    have coherent := good.coherent
    simp only [Coherent, failed] at coherent
  kept needs := ⟨good.both.trans (good.there needs), good.there needs⟩
  waits := good.waits
  complete := good.complete
  tidy ended := by
    apply good.gone
    cases ended with
    | inl closed =>
      have coherent := good.coherent
      simp only [Coherent, closed] at coherent
      exact coherent.2
    | inr aborted => exact good.tidy aborted
  dropped here := by
    have coherent := good.coherent
    simp only [Coherent, here] at coherent
    cases there : s.eventMap with
    | true => exact .inr (coherent.2 there)
    | false =>
      have gone := good.gone there
      rw [there] at gone
      exact .inl gone

end Session

/-! ## The frontend -/

/-- When a step of the frontend may be taken. -/
def Orderly (f : Frontend) : Event → Prop
  | .act uid act => ∀ s, f.sessions[uid]? = some s → s.Permits act
  | _ => True

namespace Frontend

/-- The sessions are in order, and the listener did not fail. -/
structure Good (f : Frontend) : Prop where
  listening : f.listening = true
  sessions : ∀ (uid : Nat) (s : Session), f.sessions[uid]? = some s → s.Good

variable {f f' : Frontend} {ev : Event}

theorem good_moves {uid : Nat} {s s' : Session} (good : s.Good)
    (orderly : ∀ act, ev = .act uid act → s.Permits act) (moves : s.Moves uid ev s') : s'.Good := by
  cases moves with
  | stays others => exact good
  | acts act event acts => exact Session.good_act good act (orderly act event) acts
  | aborts event => exact Session.good_abort good
  | arrives reply event arrives =>
    obtain ⟨t, heard, good'⟩ := Session.good_listen good reply
    rw [arrives] at heard
    rw [Option.some.inj heard]
    exact good'

theorem good_initial : initial.Good where
  listening := rfl
  sessions uid s there := by cases there

theorem listening_step (good : f.Good) (taken : f.step ev = some f') : f'.listening = true := by
  cases ev with
  | newUser =>
    simp only [step, newUser, Option.ite_none_right_eq_some, Option.some.injEq] at taken
    rw [← taken.2]
    exact good.listening
  | maintain state =>
    cases taken
    exact good.listening
  | prepareStop =>
    simp only [step, prepareStop, Option.ite_none_left_eq_some, Option.some.injEq] at taken
    rw [← taken.2]
    exact good.listening
  | drained =>
    simp only [step, drained, Option.ite_none_right_eq_some, Option.some.injEq] at taken
    rw [← taken.2]
    exact good.listening
  | abortInflight =>
    simp only [step, abortInflight, Option.ite_none_right_eq_some, Option.some.injEq] at taken
    rw [← taken.2]
    exact good.listening
  | arrive uid reply =>
    simp only [step, arrive, Option.ite_none_right_eq_some] at taken
    obtain ⟨-, taken⟩ := taken
    cases here : f.sessions[uid]? with
    | none =>
      rw [here] at taken
      cases taken
      exact good.listening
    | some s =>
      obtain ⟨s', heard, -⟩ := Session.good_listen (good.sessions uid s here) reply
      rw [here] at taken
      dsimp only at taken
      rw [heard] at taken
      cases taken
      exact good.listening
  | act uid act =>
    obtain ⟨s, -, taken⟩ := Option.bind_eq_some_iff.mp taken
    obtain ⟨s', -, taken⟩ := Option.map_eq_some_iff.mp taken
    rw [← taken]
    exact good.listening

theorem good_step (good : f.Good) (orderly : Orderly f ev) (taken : f.step ev = some f') :
    f'.Good where
  listening := listening_step good taken
  sessions uid s' there := by
    cases here : f.sessions[uid]? with
    | none =>
      rw [appears taken here there]
      exact Session.good_fresh
    | some s =>
      obtain ⟨t, there', moves⟩ := Frontend.moves taken here
      rw [there] at there'
      rw [Option.some.inj there']
      apply good_moves (good.sessions uid s here) _ moves
      intro act event
      rw [event] at orderly
      exact orderly s here

theorem good_reaches (reached : Reaches step Orderly initial f) : f.Good :=
  reached.invariant Good good_initial fun _ _ _ good orderly taken => good_step good orderly taken

end Frontend

/-! ## Consumers end -/

namespace Session

variable (s : Session)

def Due : Prop := s.cancelled = true ∨ ¬Unfinished s.arrived

/-- The consumer ended, and the entries were removed. -/
def Ended : Prop :=
  (s.consumer = .closed ∨ s.consumer = .dropped) ∧ s.ackMap = none ∧ s.eventMap = false

/-- What the consumer does itself, or the event loop for it: it closes a generator that was left. The
entries that a consumer leaves without a step are removed by `abort_user`. -/
def owns : Act → Prop
  | .cancel | .abort => False
  | .delete => s.consumer = .dropped
  | _ => True

/-- The number of replies that are still to be received. -/
def undelivered : Nat := (cut s.arrived).length - s.received.length

/-- What is left to do until the consumer ends. -/
def rank : Nat :=
  match s.consumer with
  | .idle | .yielding _ _ => 2 * s.undelivered + 3
  | .waiting => 2 * s.undelivered + 2
  | .closing => 1
  | .dropped => if s.eventMap then 1 else 0
  | .closed | .failed => 0

variable {s s' : Session}

theorem undelivered_yield {ack : UserReply} (fits : s.received ++ [ack] <+: cut s.arrived) :
    (cut s.arrived).length - (s.received ++ [ack]).length < s.undelivered := by
  have bound := fits.length_le
  rw [List.length_append, List.length_singleton] at bound ⊢
  unfold undelivered
  omega

theorem rank_start (acts : s.start = some s') : s'.rank < s.rank := by
  unfold start at acts
  split at acts
  · next here =>
    cases acts
    simp only [rank, here, undelivered]
    cases s.eventMap with
    | true =>
      rw [if_pos rfl]
      exact Nat.lt_succ_self _
    | false =>
      rw [if_neg Bool.false_ne_true]
      exact Nat.succ_pos _
  · cases acts

/-- A consumer that wakes up takes something, because the event is set only with replies. -/
theorem rank_wake (good : s.Good) (acts : s.wake = some s') : s'.rank < s.rank := by
  have good' := good_wake good acts
  unfold wake at acts
  split at acts
  · next here =>
    have coherent := good.coherent
    simp only [Coherent, here] at coherent
    obtain ⟨cancelled, -, there, -⟩ := coherent
    obtain ⟨set, acts⟩ := Option.ite_none_right_eq_some.mp acts
    simp only [rank, here]
    split at acts
    · cases acts
      exact Nat.succ_pos _
    · next list =>
      have sets := good.sets there
      simp [set, queue, list] at sets
    · next ack pending list =>
      cases acts
      have less := undelivered_yield (good'.ordered cancelled)
      simp only [yield]
      simp only [undelivered] at less ⊢
      omega
  · cases acts

theorem rank_next (good : s.Good) (acts : s.next = some s') : s'.rank < s.rank := by
  have good' := good_next good acts
  unfold next at acts
  split at acts
  · next ack later pending here =>
    have coherent := good.coherent
    simp only [Coherent, here] at coherent
    obtain ⟨-, rfl⟩ := of_unless acts
    have less := undelivered_yield (good'.ordered coherent.1)
    simp only [rank, here, yield]
    simp only [undelivered] at less ⊢
    omega
  · next ack here =>
    simp only [rank, here]
    split at acts
    · cases acts
      exact Nat.succ_pos _
    · cases acts
      exact Nat.lt_succ_self _
  · cases acts

theorem rank_stop (acts : s.stop = some s') : s'.rank < s.rank := by
  unfold stop at acts
  split at acts
  · next here =>
    obtain ⟨-, rfl⟩ := of_guard acts
    simp only [rank, here]
    omega
  · cases acts

theorem rank_cancel (acts : s.cancel = some s') : s'.rank < s.rank := by
  unfold cancel at acts
  split at acts
  · next here =>
    cases acts
    simp only [rank, here]
    split <;> omega
  · next here =>
    cases acts
    simp only [rank, here, pop]
    exact Nat.succ_pos _
  · next here =>
    cases acts
    simp only [rank, here]
    omega
  · cases acts

theorem rank_close (acts : s.close = some s') : s'.rank < s.rank := by
  unfold close at acts
  split at acts
  · next here =>
    cases acts
    simp only [rank, here, pop]
    exact Nat.one_pos
  · cases acts

theorem rank_delete (acts : s.delete = some s') :
    s'.rank ≤ s.rank ∧ (s.consumer = .dropped → s.eventMap = true → s'.rank < s.rank) := by
  obtain ⟨-, rfl⟩ := of_guard acts
  constructor
  · cases here : s.consumer <;> simp [rank, pop, undelivered, here]
  · intro here there
    simp [rank, pop, here, there]

theorem rank_listen (good : s.Good) (due : s.Due) {reply : UserReply}
    (arrives : s.listen reply = some s') : s'.rank = s.rank := by
  have coherent := good.coherent
  have parts : s'.consumer = s.consumer ∧ s'.eventMap = s.eventMap ∧
      s'.arrived = s.arrived ++ [reply] ∧ s'.received = s.received := by
    unfold listen at arrives
    split at arrives
    · cases arrives
      exact ⟨rfl, rfl, rfl, rfl⟩
    · obtain ⟨-, rfl⟩ := of_guard arrives
      exact ⟨rfl, rfl, rfl, rfl⟩
  obtain ⟨consumer, eventMap, arrived, received⟩ := parts
  have same : s.cancelled = false → s'.undelivered = s.undelivered := by
    intro active
    have last : ¬Unfinished s.arrived := by
      cases due with
      | inl cancelled =>
        rw [active] at cancelled
        cases cancelled
      | inr last => exact last
    rw [undelivered, undelivered, arrived, received, cut_stable last]
  cases here : s.consumer with
  | idle | waiting | yielding ack pending =>
    simp only [Coherent, here] at coherent
    simp only [rank, consumer, here, same coherent.1]
  | _ => simp only [rank, consumer, here, eventMap]

theorem enabled (good : s.Good) (due : s.Due) (open_ : ¬s.Ended) :
    ∃ act, s.owns act ∧ (s.act act).isSome := by
  have coherent := good.coherent
  cases here : s.consumer with
  | idle => exact ⟨.start, trivial, by simp [act, start, here]⟩
  | waiting =>
    simp only [Coherent, here] at coherent
    obtain ⟨active, unfinished, there, arrived⟩ := coherent
    refine ⟨.wake, trivial, ?_⟩
    have set : s.event = true := by
      by_contra clear
      have waits := good.waits here (by simpa using clear)
      cases due with
      | inl cancelled =>
        rw [active] at cancelled
        cases cancelled
      | inr last => exact last waits.2
    simp only [act, wake, here, set, if_true]
    split <;> rfl
  | yielding ack pending =>
    cases last : ack.finished with
    | true => exact ⟨.stop, trivial, by simp [act, stop, here, last]⟩
    | false =>
      refine ⟨.next, trivial, ?_⟩
      cases pending with
      | nil => simp [act, next, here, last]
      | cons later pending => simp [act, next, here, last]
  | closing => exact ⟨.close, trivial, by simp [act, close, here]⟩
  | closed =>
    simp only [Coherent, here] at coherent
    exact absurd ⟨.inl here, good.gone coherent.2⟩ open_
  | dropped =>
    simp only [Coherent, here] at coherent
    cases there : s.eventMap with
    | false => exact absurd ⟨.inr here, good.gone there⟩ open_
    | true => exact ⟨.delete, here, by simp [act, delete, coherent.2 there]⟩
  | failed => simp only [Coherent, here] at coherent

theorem due_act (due : s.Due) {a : Act} (acts : s.act a = some s') : s'.Due := by
  have parts : (s.cancelled = true → s'.cancelled = true) ∧ s'.arrived = s.arrived := by
    cases a with
    | abort =>
      cases acts
      exact ⟨id, rfl⟩
    | delete =>
      obtain ⟨-, rfl⟩ := of_guard acts
      exact ⟨id, rfl⟩
    | _ =>
      simp only [act, start, wake, next, stop, cancel, close] at acts
      repeat' split at acts
      all_goals first
        | obtain rfl := Option.some.inj acts; exact ⟨id, rfl⟩
        | obtain rfl := Option.some.inj acts; exact ⟨fun _ => rfl, rfl⟩
        | cases acts
  rw [Due, parts.2]
  exact due.imp_left parts.1

theorem due_listen (due : s.Due) {reply : UserReply} (arrives : s.listen reply = some s') :
    s'.Due := by
  have parts : s'.cancelled = s.cancelled ∧ s'.arrived = s.arrived ++ [reply] := by
    unfold listen at arrives
    split at arrives
    · cases arrives
      exact ⟨rfl, rfl⟩
    · obtain ⟨-, rfl⟩ := of_guard arrives
      exact ⟨rfl, rfl⟩
  rw [Due, parts.1, parts.2, unfinished_append]
  exact due.imp_right fun last both => last both.1

theorem rank_owns (good : s.Good) (open_ : ¬s.Ended) {a : Act} (mine : s.owns a)
    (acts : s.act a = some s') : s'.rank < s.rank := by
  cases a with
  | start => exact rank_start acts
  | wake => exact rank_wake good acts
  | next => exact rank_next good acts
  | stop => exact rank_stop acts
  | cancel => exact mine.elim
  | close => exact rank_close acts
  | abort => exact mine.elim
  | delete =>
    apply (rank_delete acts).2 mine
    by_contra gone
    exact open_ ⟨.inr mine, good.gone (by simpa using gone)⟩

theorem rank_abort : s.abort.rank = s.rank := rfl

theorem rank_act (good : s.Good) {a : Act} (acts : s.act a = some s') :
    s'.rank ≤ s.rank := by
  cases a with
  | cancel => exact Nat.le_of_lt (rank_cancel acts)
  | abort =>
    cases acts
    exact Nat.le_of_eq rank_abort
  | delete => exact (rank_delete acts).1
  | start => exact Nat.le_of_lt (rank_start acts)
  | wake => exact Nat.le_of_lt (rank_wake good acts)
  | next => exact Nat.le_of_lt (rank_next good acts)
  | stop => exact Nat.le_of_lt (rank_stop acts)
  | close => exact Nat.le_of_lt (rank_close acts)

theorem moves_on {uid : Nat} {ev : Event} (good : s.Good) (due : s.Due) (open_ : ¬s.Ended)
    (moves : s.Moves uid ev s') :
    s'.Due ∧ s'.rank ≤ s.rank ∧ ((∃ a, ev = .act uid a ∧ s.owns a) → s'.rank < s.rank) := by
  cases moves with
  | stays others => exact ⟨due, Nat.le_refl _, fun mine => absurd mine.choose_spec.1 (others _)⟩
  | acts a event acts =>
    refine ⟨due_act due acts, rank_act good acts, fun mine => ?_⟩
    obtain ⟨a', event', mine⟩ := mine
    rw [event] at event'
    rw [← (Event.act.inj event').2] at mine
    exact rank_owns good open_ mine acts
  | aborts event =>
    refine ⟨due, Nat.le_of_eq rank_abort, fun mine => ?_⟩
    obtain ⟨a, event', -⟩ := mine
    rw [event] at event'
    cases event'
  | arrives reply event arrives =>
    refine ⟨due_listen due arrives, Nat.le_of_eq (rank_listen good due arrives), fun mine => ?_⟩
    obtain ⟨a, event', -⟩ := mine
    rw [event] at event'
    cases event'

end Session

variable (uid : Nat) (f : Frontend)

def Own (ev : Event) : Prop :=
  ∃ s, f.sessions[uid]? = some s ∧ ∃ a, ev = .act uid a ∧ s.owns a

/-- The consumer of a uid has to end, and did not. -/
def Going : Prop :=
  f.Good ∧ ∃ s, f.sessions[uid]? = some s ∧ s.Due ∧ ¬s.Ended

def Ended : Prop := ∃ s, f.sessions[uid]? = some s ∧ s.Ended

def rank : Nat := f.sessions[uid]?.elim 0 Session.rank

theorem Frontend.ends (run : Run Frontend.step Orderly) (begins : run.states 0 = initial)
    (uid : Nat) (fair : run.Fair (Own uid)) (n : Nat) (s : Session)
    (here : (run.states n).sessions[uid]? = some s) (due : s.Due) :
    ∃ m, n ≤ m ∧ Ended uid (run.states m) := by
  have good_n := Frontend.good_reaches (begins ▸ run.reaches n)
  by_cases ended : s.Ended
  · exact ⟨n, Nat.le_refl n, s, here, ended⟩
  · apply run.finishes (Going uid) (Ended uid) (rank uid) fair
    · intro f going
      obtain ⟨good, s, here, due, open_⟩ := going
      obtain ⟨a, mine, acts⟩ := Session.enabled (good.sessions uid s here) due open_
      refine ⟨.act uid a, ⟨s, here, a, rfl, mine⟩, ?_⟩
      simp [Frontend.step, Frontend.act, here, acts]
    · intro f ev f' going orderly taken
      obtain ⟨good, s, here, due, open_⟩ := going
      obtain ⟨s', there, moves⟩ := Frontend.moves taken here
      obtain ⟨due', less, mine⟩ := Session.moves_on (good.sessions uid s here) due open_ moves
      by_cases ended' : s'.Ended
      · exact .inl ⟨s', there, ended'⟩
      · refine .inr ⟨⟨Frontend.good_step good orderly taken, s', there, due', ended'⟩, ?_, ?_⟩
        · rw [rank, rank, here, there]
          exact less
        · intro own
          obtain ⟨t, here', a, event, owns⟩ := own
          rw [here] at here'
          rw [← Option.some.inj here'] at owns
          rw [rank, rank, here, there]
          exact mine ⟨a, event, owns⟩
    · exact ⟨good_n, s, here, due, ended⟩

/-! ## Delivery -/

/-- In each state of a run, the listener works and each consumer gets its replies; and each consumer that
has to end does so, when the run does not neglect it for ever. -/
structure Delivers (run : Run Frontend.step Always) : Prop where
  listening : ∀ n, (run.states n).listening = true
  delivered : ∀ (n uid : Nat) (s : Session), (run.states n).sessions[uid]? = some s → s.Delivered
  ends : ∀ (uid : Nat), run.Fair (Own uid) → ∀ (n : Nat) (s : Session),
    (run.states n).sessions[uid]? = some s → s.Due → ∃ m, n ≤ m ∧ Ended uid (run.states m)

namespace Session

variable {s s' : Session}

theorem not_delivered_delete (needs : s.needsQueue = true)
    (acts : s.delete = some s') : ¬s'.Delivered := by
  intro delivered
  obtain ⟨-, rfl⟩ := of_guard acts
  exact absurd (delivered.kept needs).2 Bool.false_ne_true

/-- Entries that a consumer leaves before its first step are not removed. -/
theorem not_delivered_cancel (delivered : s.Delivered) (here : s.consumer = .idle)
    (alone : ¬0 < s.aborts) (acts : s.cancel = some s') : ¬s'.Delivered := by
  intro delivered'
  have there := (delivered.kept (by rw [needsQueue, here])).2
  rw [cancel, here] at acts
  cases acts
  cases delivered'.dropped rfl with
  | inl gone =>
    rw [there] at gone
    exact absurd gone.2.symm Bool.false_ne_true
  | inr aborts => exact alone aborts

/-- What may not happen is followed by a consumer that does not get its replies. -/
theorem not_delivered_act (delivered : s.Delivered) {a : Act}
    (not_ : ¬s.Permits a) (acts : s.act a = some s') : ¬s'.Delivered := by
  cases a with
  | delete => exact not_delivered_delete (by simpa [Permits] using not_) acts
  | cancel =>
    obtain ⟨here, alone⟩ := Classical.not_imp.mp not_
    exact not_delivered_cancel delivered here alone acts
  | _ => exact absurd trivial not_

end Session

theorem Delivers.orderly {run : Run Frontend.step Always} (delivers : Delivers run) (n : Nat)
    (ev : Event) (event : run.events n = some ev) : Orderly (run.states n) ev := by
  cases ev with
  | act uid a =>
    intro s here
    by_contra not_
    have taken := run.taken n
    rw [event, Option.elim_some] at taken
    obtain ⟨t, here', taken⟩ := Option.bind_eq_some_iff.mp taken
    obtain ⟨s', acts, taken⟩ := Option.map_eq_some_iff.mp taken
    rw [here] at here'
    rw [← Option.some.inj here'] at acts
    apply Session.not_delivered_act (delivers.delivered n uid s here) not_ acts
    apply delivers.delivered (n + 1) uid s'
    rw [← taken]
    exact List.getElem?_set_self (List.getElem?_eq_some_iff.mp here).1
  | _ => trivial

/-- Each consumer gets its replies and ends exactly in the runs in which `abort_user` removes the entries
only of a uid whose consumer does not need them, and no consumer is cancelled before its first step
without a call of `abort_user` under way. -/
theorem delivers_iff (run : Run Frontend.step Always) (begins : run.states 0 = initial) :
    Delivers run ↔ ∀ n ev, run.events n = some ev → Orderly (run.states n) ev := by
  constructor
  · exact Delivers.orderly
  · intro orderly
    have good : ∀ n, (run.states n).Good := fun n =>
      Frontend.good_reaches (begins ▸ (run.restrict orderly).reaches n)
    exact
      { listening := fun n => (good n).listening
        delivered := fun n uid s here => ((good n).sessions uid s here).delivered
        ends := fun uid fair => Frontend.ends (run.restrict orderly) begins uid fair }

def lastReply : UserReply :=
  { error := none, errorCode := none, promptTokensDelta := 0, completionTokensDelta := 0
    cachedTokens := 0, incrementalOutput := [], finished := true, finishReason := none
    matchedStop := none }

def answered : Run Frontend.step Always :=
  .ofEvents
    [.maintain .serving, .newUser, .act 0 .start, .arrive 0 lastReply, .act 0 .wake, .act 0 .stop,
      .act 0 .close] initial
    { maintenanceState := .serving, listening := true, preparing := false
      sessions := [{ ackMap := none, eventMap := false, event := false, inflight := false
                     aborts := 0, consumer := .closed, cancelled := false, aborted := false
                     arrived := [lastReply], received := [lastReply] }] }
    rfl

theorem answered_delivers : Delivers answered := by
  apply (delivers_iff answered rfl).mpr
  intro n ev event
  have mem := List.mem_of_getElem? event
  simp only [List.mem_cons, List.not_mem_nil, or_false] at mem
  obtain rfl | rfl | rfl | rfl | rfl | rfl | rfl := mem
  · trivial
  · trivial
  · intro s here; trivial
  · trivial
  · intro s here; trivial
  · intro s here; trivial
  · intro s here; trivial

/-- A session whose consumer waits without its entries. -/
def stranded : Session :=
  { ackMap := none, eventMap := false, event := false, inflight := false, aborts := 0
    consumer := .waiting, cancelled := false, aborted := true, arrived := [lastReply]
    received := [] }

def stopping : Frontend :=
  { maintenanceState := .stopping, listening := true, preparing := false, sessions := [stranded] }

/-- A stop is prepared while a consumer waits, and its request is aborted. -/
def stopped : Run Frontend.step Always :=
  .ofEvents
    [.maintain .serving, .newUser, .act 0 .start, .prepareStop, .abortInflight, .act 0 .delete,
      .arrive 0 lastReply] initial stopping rfl

/-- The terminal reply arrives, and the consumer waits for ever. -/
theorem stopped_waits : ¬Delivers stopped := by
  intro delivers
  have last : ∀ n, 7 ≤ n → stopped.states n = stopping :=
    fun n later => Run.ofEvents_last _ n later
  have fair : stopped.Fair (Own 0) := by
    intro n
    refine ⟨n + 7, Nat.le_add_right _ _, .inr fun enabled => ?_⟩
    obtain ⟨ev, ⟨s, here, a, rfl, mine⟩, taken⟩ := enabled
    rw [last _ (Nat.le_add_left _ _)] at here taken
    obtain rfl : stranded = s := Option.some.inj here
    cases a with
    | cancel => exact mine
    | abort => exact mine
    | delete => cases mine
    | _ => cases taken
  have due : stranded.Due := .inr fun none_ => by
    have open_ := none_ lastReply List.mem_cons_self
    cases open_
  obtain ⟨m, later, s, here, ended⟩ := delivers.ends 0 fair 7 stranded
    (by rw [last 7 (Nat.le_refl _)]; rfl) due
  rw [last m later] at here
  obtain rfl : stranded = s := Option.some.inj here
  cases ended.1 with
  | inl closed => cases closed
  | inr dropped => cases dropped

end FreeSwarm.Server.FrontendManager
