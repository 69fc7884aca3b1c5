import FreeSwarm.Objectives.Title

/-!
# What it means to be disqualified

A candidate is disqualified by a failed audit or a failed look-ahead test in its row. A verdict that
arrives later is written over it: then the candidate is ranked again, or takes the title. It stays
disqualified until it is evaluated again exactly if each verdict that arrives for a candidate that is
disqualified leaves the row disqualified, and the candidate does not contend with it.
-/

namespace FreeSwarm.Objectives

open FreeSwarm.Foundation

namespace Store

variable {obj : Objective} {s s' s'' : Store} {new : Option CandidateId}

/-! ## Rows that stay disqualified -/

/-- The rows are old ones, but for a new candidate, and none that was disqualified is not any more. -/
def Keeps (new : Option CandidateId) (s s' : Store) : Prop :=
  ∀ cid c', some cid ≠ new → s'.candidates.get? cid = some c' →
    ∃ c, s.candidates.get? cid = some c ∧ (c.Disqualified → c'.Disqualified)

theorem Keeps.of_eq (same : s'.candidates = s.candidates) : Keeps new s s' := by
  intro cid c' _ here
  rw [same] at here
  exact ⟨c', here, id⟩

theorem Keeps.trans (first : Keeps new s s') (second : Keeps none s' s'') : Keeps new s s'' := by
  intro cid c'' old here
  obtain ⟨c', here', still'⟩ := second cid c'' nofun here
  obtain ⟨c, here, still⟩ := first cid c' old here'
  exact ⟨c, here, still' ∘ still⟩

theorem Keeps.map {f : CandidateId → Candidate → Candidate}
    (same : s'.candidates = s.candidates.map f)
    (still : ∀ cid c, s.candidates.get? cid = some c → c.Disqualified → (f cid c).Disqualified) :
    Keeps new s s' := by
  intro cid c' _ here
  rw [same, Dict.get?_map] at here
  obtain ⟨c, before, rfl⟩ := Option.map_eq_some_iff.mp here
  exact ⟨c, before, still cid c before⟩

theorem Keeps.filter {p : CandidateId → Candidate → Prop} [∀ cid c, Decidable (p cid c)]
    (same : s'.candidates = s.candidates.filter p) : Keeps new s s' := by
  intro cid c' _ here
  rw [same] at here
  exact ⟨c', (Dict.get?_filter_eq_some.mp here).1, id⟩

variable {cid : CandidateId} {bestId : Option CandidateId} {fields : Fields} {c : Candidate}

theorem update_keeps
    (still : ∀ c, s.candidates.get? cid = some c → c.Disqualified → (c.assign fields).Disqualified) :
    Keeps new s (s.update cid fields) := by
  refine .map (f := fun id c => if id = cid then c.assign fields else c) rfl fun id c here out => ?_
  split_ifs with same
  · subst same
    exact still c here out
  · exact out

theorem disqualify_keeps (s : Store) (hit : CandidateId → Candidate → Bool) :
    Keeps new s (s.disqualify hit) := by
  refine .map (f := fun id c => if hit id c then { c with audit := .fail } else c) rfl
    fun id c _ out => ?_
  split_ifs
  · exact .inl rfl
  · exact out

theorem disqualifyDependents_keeps (obj : Objective) (s : Store) (ids : List CandidateId)
    (seqs : List Nat) : Keeps new s (s.disqualifyDependents obj ids seqs) := by
  rw [disqualifyDependents]
  dsimp only
  split_ifs
  · exact .of_eq rfl
  · exact (disqualify_keeps s _).trans (.of_eq (handOver_candidates obj _))
  · exact disqualify_keeps s _

theorem cascadeQuarantine_keeps (obj : Objective) (s : Store) (imports : Text → Bool)
    (origin : Option CandidateId) : Keeps new s (s.cascadeQuarantine obj imports origin) := by
  rw [cascadeQuarantine]
  dsimp only
  split_ifs
  · exact .of_eq rfl
  · have first : Keeps new s _ := (disqualify_keeps s (Tainted imports origin)).trans
      (disqualifyDependents_keeps obj _ [] ((s.candidates.entries.filter fun pair =>
        Tainted imports origin pair.1 pair.2).map fun pair => pair.2.seq))
    split
    · exact first.trans (.of_eq (handOver_candidates obj _))
    · split_ifs
      · exact first.trans (.of_eq (handOver_candidates obj _))
      · exact first

theorem recrown_keeps (obj : Objective) (s : Store) : Keeps new s (s.recrown obj) := by
  have taken : Keeps new s (s.takeTitle
      ((ranked obj s.candidates 200).find? fun pair => MayHold obj pair.2)) :=
    .of_eq (takeTitle_candidates s _)
  rw [recrown]
  split
  · next cid c found =>
    split_ifs
    · refine taken.trans (update_keeps fun c' here out => ?_)
      rw [takeTitle_candidates] at here
      -- what is to be audited is ranked, so that it is not disqualified
      obtain ⟨here', is_⟩ := of_mem_ranked (List.mem_of_find?_eq_some found)
      cases here.symm.trans here'
      exact absurd out (not_disqualified_of_ranked is_)
    · exact taken
  · exact taken

/-- What is written to the row of a candidate leaves it disqualified if it is, and it does not contend
for the title then. -/
def Spares (s : Store) (cid : CandidateId) (fields : Fields) (contends : Prop) : Prop :=
  ∀ c, s.candidates.get? cid = some c → c.Disqualified → (c.assign fields).Disqualified ∧ ¬contends

variable {imports : Text → Bool}

theorem settle_keeps {cid : CandidateId} {fields : Fields}
    (spares : s.Spares cid fields (s.Contends obj bestId fields = true)) :
    Keeps new s (s.settle obj bestId cid fields imports) := by
  let bids := s.bid obj bestId cid fields
  have same : bids.candidates = s.candidates := by
    show (s.bid obj bestId cid fields).candidates = _
    rw [bid]
    split_ifs <;> rfl
  let written := bids.update cid (if s.Contends obj bestId fields && obj.requireAudit then
    { fields with audit := some .pending } else fields)
  have writes : Keeps new s written := by
    refine Keeps.trans (.of_eq same) (update_keeps fun c here out => ?_)
    rw [same] at here
    obtain ⟨still, quiet⟩ := spares c here out
    rw [if_neg fun both => quiet (Bool.and_eq_true_iff.mp both).1]
    exact still
  let retired := if fields.lookahead = some .fail then
    written.cascadeQuarantine obj imports (some cid) else written
  have retires : Keeps new s retired := by
    show Keeps new s (if fields.lookahead = some .fail then
      written.cascadeQuarantine obj imports (some cid) else written)
    split_ifs
    · exact writes.trans (cascadeQuarantine_keeps obj written imports (some cid))
    · exact writes
  show Keeps new s (if (s.Contends obj bestId fields && !obj.requireAudit) = true then
    retired.crown cid else retired)
  split_ifs
  · exact retires.trans (.of_eq rfl)
  · exact retires

/-! ## Titles of candidates that are not disqualified -/

def Clear (log : List Title) : Prop := ∀ t ∈ log, t.disqualified = false

theorem Hands.clear_iff (hands : Hands s s') : Clear s'.log ↔ Clear s.log := by
  obtain ⟨hands, all, same⟩ := hands
  rw [same]
  constructor
  · exact fun clear t mem => clear t (List.mem_append_right _ mem)
  · intro clear t mem
    cases List.mem_append.mp mem with
    | inl mem => exact (all t mem).2
    | inr mem => exact clear t mem

theorem note_clear_iff {how : How} {cid : CandidateId} {score : Option Score} :
    Clear (s.note how cid score).log ↔ ¬s.Out cid ∧ Clear s.log :=
  List.forall_mem_cons.trans (and_congr_left fun _ => decide_eq_false_iff_not)

theorem settle_clear_iff {cid : CandidateId} {fields : Fields}
    : Clear (s.settle obj bestId cid fields imports).log ↔
      (s.Contends obj bestId fields = true → ¬s.Out cid) ∧ Clear s.log := by
  rw [(settle_hands obj s bestId cid fields imports).clear_iff, bid]
  by_cases contends : s.Contends obj bestId fields = true
  · rw [if_pos contends, note_clear_iff]
    simp [contends]
  · rw [if_neg contends]
    simp [contends]

/-! ## What a step does -/

/-- Nothing is lifted, and no candidate contends that is disqualified. -/
structure Calm (new : Option CandidateId) (s s' : Store) : Prop where
  keeps : Keeps new s s'
  clear : Clear s'.log ↔ Clear s.log

theorem Calm.of_hands (keeps : Keeps new s s') (hands : Hands s s') : Calm new s s' :=
  ⟨keeps, hands.clear_iff⟩

theorem Calm.of_eq (same : s'.candidates = s.candidates) (log : s'.log = s.log) : Calm new s s' :=
  .of_hands (.of_eq same) (.of_eq log)

theorem Calm.trans (first : Calm new s s') (second : Calm none s' s'') : Calm new s s'' :=
  ⟨first.keeps.trans second.keeps, second.clear.trans first.clear⟩

theorem Calm.of_same (calm : Calm new s' s'') (candidates : s'.candidates = s.candidates)
    (log : s'.log = s.log) : Calm new s s'' := by
  constructor
  · intro cid c' old here
    rw [← candidates]
    exact calm.keeps cid c' old here
  · rw [← log]
    exact calm.clear

theorem Calm.update
    (still : ∀ c, s.candidates.get? cid = some c → c.Disqualified → (c.assign fields).Disqualified) :
    Calm new s (s.update cid fields) :=
  .of_hands (update_keeps still) (.of_eq rfl)

theorem handOver_calm (obj : Objective) (s : Store) : Calm new s (s.handOver obj) :=
  .of_hands (.of_eq (handOver_candidates obj s)) (handOver_hands obj s)

theorem disqualifyDependents_calm (obj : Objective) (s : Store) (ids : List CandidateId)
    (seqs : List Nat) : Calm new s (s.disqualifyDependents obj ids seqs) :=
  .of_hands (disqualifyDependents_keeps obj s ids seqs) (disqualifyDependents_hands obj s ids seqs)

theorem cascadeQuarantine_calm (obj : Objective) (s : Store) (imports : Text → Bool)
    (origin : Option CandidateId) : Calm new s (s.cascadeQuarantine obj imports origin) :=
  .of_hands (cascadeQuarantine_keeps obj s imports origin)
    (cascadeQuarantine_hands obj s imports origin)

theorem recrown_calm (obj : Objective) (s : Store) : Calm new s (s.recrown obj) :=
  .of_hands (recrown_keeps obj s) (recrown_hands obj s)

/-- A candidate that is disqualified hands the title on, and so does what is built as it is, and what is
made of it. -/
theorem family_calm (obj : Objective) (s : Store) (cid : CandidateId) (champion : Bool)
    (imports : Text → Bool) :
    Calm new s (((if champion = true then s.handOver obj else s).cascadeQuarantine obj imports
      (some cid)).disqualifyDependents obj [cid] []) := by
  have first : Calm new s (if champion = true then s.handOver obj else s) := by
    split_ifs
    · exact handOver_calm obj s
    · exact .of_eq rfl rfl
  exact (first.trans (cascadeQuarantine_calm obj _ imports (some cid))).trans
    (disqualifyDependents_calm obj _ [cid] [])

theorem settle_calm {cid : CandidateId} {fields : Fields}
    (spares : s.Spares cid fields (s.Contends obj bestId fields = true)) :
    Calm new s (s.settle obj bestId cid fields imports) := by
  refine ⟨settle_keeps spares, settle_clear_iff.trans (and_iff_right ?_)⟩
  rintro contends ⟨c, here, out⟩
  exact (spares c here out).2 contends

/-- A candidate that was disqualified is not any more, or it contends for the title. -/
def Lifts (new : Option CandidateId) (s s' : Store) : Prop :=
  (∃ cid c', some cid ≠ new ∧ s.Out cid ∧ s'.candidates.get? cid = some c' ∧ ¬c'.Disqualified) ∨
    ¬Clear s'.log

theorem get?_update
    (here : s.candidates.get? cid = some c) :
    (s.update cid fields).candidates.get? cid = some (c.assign fields) := by
  rw [update, Dict.get?_map, here, Option.map_some, if_pos rfl]

theorem update_lifts
    (same : s'.candidates = (s.update cid fields).candidates)
    (here : s.candidates.get? cid = some c) (out : c.Disqualified)
    (lifted : ¬(c.assign fields).Disqualified) : Lifts none s s' := by
  refine .inl ⟨cid, c.assign fields, nofun, ⟨c, here, out⟩, ?_, lifted⟩
  rw [same]
  exact get?_update here

theorem settle_lifts {cid : CandidateId} {fields : Fields}
    (harms : ¬s.Spares cid fields (s.Contends obj bestId fields = true)) :
    Lifts none s (s.settle obj bestId cid fields imports) := by
  simp only [Spares, not_forall] at harms
  obtain ⟨c, here, out, lifted⟩ := harms
  by_cases contends : s.Contends obj bestId fields = true
  · refine .inr fun clear => ?_
    exact (settle_clear_iff.mp clear).1 contends ⟨c, here, out⟩
  · have lifted : ¬(c.assign fields).Disqualified := fun still => lifted ⟨still, contends⟩
    have kept : fields.lookahead ≠ some .fail := by
      intro fail
      exact lifted (.inr (by rw [Candidate.assign, fail, Option.getD_some]))
    refine update_lifts ?_ here out lifted
    rw [Bool.not_eq_true] at contends
    simp only [settle, contends, Bool.false_and, Bool.false_eq_true, if_false, if_neg kept]

def Settles (obj : Objective) (s : Store) (e : Evaluation) (fields : Fields) : Prop :=
  fields.lookahead ≠ some .pending ∧ s.Contends obj e.bestId fields = true

theorem conclude_calm (obj : Objective) (s : Store) (e : Evaluation) (fields : Fields)
    (imports : Text → Bool) (spares : s.Spares e.candidate fields (Settles obj s e fields)) :
    Calm none s (s.conclude obj e fields imports) := by
  rw [conclude]
  by_cases tests : fields.lookahead = some .pending
  · rw [if_pos tests]
    exact .of_hands (update_keeps fun c here out => (spares c here out).1) (.of_eq rfl)
  · rw [if_neg tests]
    refine settle_calm fun c here out => ⟨(spares c here out).1, fun contends => ?_⟩
    exact (spares c here out).2 ⟨tests, contends⟩

theorem conclude_lifts {e : Evaluation} {fields : Fields}
    (harms : ¬s.Spares e.candidate fields (Settles obj s e fields)) :
    Lifts none s (s.conclude obj e fields imports) := by
  rw [conclude]
  by_cases tests : fields.lookahead = some .pending
  · rw [if_pos tests]
    simp only [Spares, not_forall] at harms
    obtain ⟨c, here, out, lifted⟩ := harms
    exact update_lifts rfl here out fun still => lifted ⟨still, fun settles => settles.1 tests⟩
  · rw [if_neg tests]
    refine settle_lifts fun spares => harms fun c here out => ?_
    exact ⟨(spares c here out).1, fun settles => (spares c here out).2 settles.2⟩

/-- Each verdict that arrives for a candidate that is disqualified leaves its row disqualified, and the
candidate does not contend for the title with it. -/
def Respects (obj : Objective) (s : Store) : Event → Prop
  | .evaluated e (.scored score) _ =>
    s.Spares e.candidate (obj.fieldsOf score)
      (obj.kind ≠ .task ∧ Settles obj s e (obj.fieldsOf score))
  | .reviewed e _ => ∀ fields, e.scored = some fields → s.Spares e.candidate fields (Settles obj s e fields)
  | .settleLookahead cid verdict _ => ∀ c, s.candidates.get? cid = some c → c.lookahead = .pending →
    let fields : Fields := ⟨some c.status, some c.score, some verdict, none⟩
    s.Spares cid fields (s.Contends obj s.bestId fields = true)
  | .finishShortTest test verdict _ => ∀ v c, verdict = some v → v ≠ .error →
    s.candidates.get? test.candidate = some c → c.lookahead = .short →
      let fields : Fields := ⟨some test.status, some test.score, some v, none⟩
      s.Spares test.candidate fields (s.Contends obj s.bestId fields = true)
  | .audit cid true _ => ∀ c, s.candidates.get? cid = some c →
    s.Spares cid { audit := some .pass }
      (better c.score (s.bestScore s.bestId) obj.higherIsBetter = true)
  | .judge cid score =>
    s.Spares cid { score := some (some score) }
      (better (some score) (s.bestScore s.bestId) true = true)
  | .retested .pass _ => ∀ cid rest, s.retest = some (cid :: rest) →
    s.Spares cid { lookahead := some .pass } False
  | _ => True

/-- The candidate that comes in with a step, or is evaluated again. -/
def renews : Event → Option CandidateId
  | .submit cid _ _ | .rerun cid | .combine cid _ _ _ => some cid
  | _ => none

def dropEvaluation (s : Store) (e : Evaluation) : Store :=
  { s with evaluations := s.evaluations.erase e }

theorem evaluated_calm {e : Evaluation} {outcome : Outcome}
    (respects : Respects obj s (.evaluated e outcome imports)) :
    Calm none s (s.evaluated obj e outcome imports) := by
  -- a status that is written changes nothing about the verdicts
  have still : ∀ (status : Status) (c : Candidate), c.Disqualified →
      (c.assign { status := some status }).Disqualified := fun _ _ out => out
  cases outcome with
  | failed =>
    have concludes := conclude_calm obj (s.dropEvaluation e) e { status := some .error } imports
      fun c _ out => ⟨still .error c out, fun settles => by simp [Settles, Contends, MayWin] at settles⟩
    exact ⟨concludes.keeps, concludes.clear⟩
  | scored score =>
    rw [evaluated]
    dsimp only
    by_cases task : obj.kind = .task
    · rw [if_pos task]
      exact .of_hands (update_keeps fun c here out => (respects c here out).1) (.of_eq rfl)
    · rw [if_neg task]
      have concludes := conclude_calm obj (s.dropEvaluation e) e (obj.fieldsOf score) imports
        fun c here out => ⟨(respects c here out).1, fun settles => (respects c here out).2 ⟨task, settles⟩⟩
      exact ⟨concludes.keeps, concludes.clear⟩
  | raised others =>
    rw [evaluated]
    have writes : Keeps none s (s.update e.candidate { status := some .error }) :=
      update_keeps fun c _ out => still .error c out
    split_ifs
    · exact .of_hands (writes.trans (.of_eq rfl)) (.of_eq rfl)
    · refine .of_hands (writes.trans (.map (f := fun id c => if id ∈ others ∧ c.status = .evaluating then
        { c with status := .error } else c) rfl fun id c _ out => ?_)) (.of_eq rfl)
      split_ifs <;> exact out
  | sandboxDown =>
    rw [evaluated]
    split_ifs
    · exact .of_hands (update_keeps fun c _ out => still .error c out) (.of_eq rfl)
    · exact .of_hands (.filter (p := fun id _ => id ≠ e.candidate) rfl) (.of_eq rfl)

theorem settleLookahead_calm {verdict : Lookahead}
    (respects : Respects obj s (.settleLookahead cid verdict imports)) :
    Calm none s (s.settleLookahead obj cid verdict imports) := by
  rw [settleLookahead]
  dsimp only
  split
  · exact .of_eq rfl rfl
  · next c here =>
    split_ifs with pending
    · exact .of_eq rfl rfl
    · exact Calm.of_same (settle_calm (s := { s with tests := s.tests.erase cid })
        (respects c here (not_not.mp pending))) rfl rfl

theorem finishShortTest_calm {test : ShortTest} {verdict : Option Lookahead}
    (respects : Respects obj s (.finishShortTest test verdict imports)) :
    Calm none s (s.finishShortTest obj test verdict imports) := by
  unfold finishShortTest
  dsimp only
  split
  · next v c here =>
    split_ifs with left
    · exact .of_eq rfl rfl
    · obtain ⟨answers, short⟩ := not_or.mp left
      exact Calm.of_same (settle_calm (s := { s with shortTests := s.shortTests.erase test })
        (respects v c rfl answers here (not_not.mp short))) rfl rfl
  · exact .of_eq rfl rfl

theorem audit_calm {passed : Bool}
    (here : s.candidates.get? cid = some c) (respects : Respects obj s (.audit cid passed imports)) :
    Calm none s (s.audit obj cid c passed imports) := by
  rw [audit]
  cases passed with
  | true =>
    have spares := respects c here
    have writes : Keeps none s (s.update cid { audit := some .pass }) :=
      update_keeps fun c' here' out => (spares c' here' out).1
    rw [if_pos rfl]
    split_ifs with beats
    · refine ⟨Keeps.trans (.of_eq rfl) (writes.trans (.of_eq rfl)), ?_⟩
      refine note_clear_iff.trans (and_iff_right ?_)
      rintro ⟨c', here', out⟩
      exact (spares c' here' out).2 beats
    · exact .of_hands writes (.of_eq rfl)
  | false =>
    rw [if_neg (by simp)]
    have fails : Calm none s (s.update cid { audit := some .fail }) := .update fun _ _ _ => .inl rfl
    exact fails.trans (family_calm obj _ cid false imports)

theorem judge_calm {score : Score}
    (respects : Respects obj s (.judge cid score)) : Calm none s (s.judge obj cid score) := by
  rw [judge]
  dsimp only
  split_ifs with beats audited
  · have in_ : ¬s.Out cid := by
      rintro ⟨c, here, out⟩
      exact (respects c here out).2 beats
    refine ⟨Keeps.trans (.of_eq rfl) (update_keeps fun c here out => ?_),
      note_clear_iff.trans (and_iff_right in_)⟩
    exact absurd ⟨c, here, out⟩ in_
  · have in_ : ¬s.Out cid := by
      rintro ⟨c, here, out⟩
      exact (respects c here out).2 beats
    have writes : Keeps none s (s.update cid { score := some (some score) }) :=
      update_keeps fun _ _ out => out
    exact ⟨writes.trans (.of_eq rfl), note_clear_iff.trans (and_iff_right in_)⟩
  · exact .update fun _ _ out => out

theorem demote_calm (obj : Objective) (s : Store) (cid : CandidateId) (imports : Text → Bool) :
    Calm none s (s.demote obj cid imports) := by
  have fails : Calm none s (s.update cid { audit := some .fail }) := .update fun _ _ _ => .inl rfl
  exact fails.trans (family_calm obj _ cid _ imports)

theorem retested_calm {verdict : Lookahead}
    (respects : verdict = .pass → s.Spares cid { lookahead := some .pass } False) :
    Calm none s (s.retested obj cid verdict imports) := by
  rw [retested]
  split_ifs with pass
  · exact .update fun c here out => (respects pass c here out).1
  · exact .of_eq rfl rfl
  · have fails : Calm none s (s.update cid { lookahead := some .fail }) :=
      .update fun _ _ _ => .inr rfl
    exact fails.trans (family_calm obj _ cid _ imports)

theorem delete_calm (obj : Objective) (s : Store) (ids : List CandidateId) :
    Calm none s (s.delete obj ids) := by
  let stays : CandidateId → Candidate → Prop := fun id c =>
    ¬(id ∈ ids ∧ c.status ≠ .evaluating ∧ id ∉ s.retest.getD [])
  let rest : Store := { s with candidates := s.candidates.filter stays }
  have deletes : Calm none s rest := .of_hands (.filter (p := stays) rfl) (.of_eq rfl)
  show Calm none s (if s.bestId.isSome ∧ rest.best s.bestId = none then rest.handOver obj else rest)
  split_ifs
  · exact deletes.trans (handOver_calm obj rest)
  · exact deletes

theorem insert_calm (s : Store) (cid : CandidateId) (code : Text) (ensemble : Bool)
    (members : List Member) : Calm (some cid) s (s.insert cid code ensemble members) := by
  refine .of_hands (fun id c' other here => ?_) (.of_eq rfl)
  rw [insert, Dict.get?_set_of_ne fun same => other (congrArg some same)] at here
  exact ⟨c', here, fun out => out⟩

theorem restart_calm (obj : Objective) (s : Store) (resumed : CandidateId → Bool) :
    Calm none s (s.restart obj resumed) := by
  let first : Store := { s with candidates := s.candidates.map fun _ c =>
    if c.status = .evaluating then { c with status := .error } else c }
  have interrupts : Calm none s first := by
    refine .of_hands (.map (f := fun _ c => if c.status = .evaluating then
      { c with status := .error } else c) rfl fun id c _ out => ?_) (.of_eq rfl)
    split_ifs <;> exact out
  let resumes : CandidateId → Candidate → Bool := fun id c =>
    c.lookahead = .pending && c.status = .ok && obj.checks && resumed id
  refine interrupts.trans (.of_hands (.map (f := fun id c =>
    if c.lookahead = .pending ∧ resumes id c = false then { c with lookahead := .error } else c) rfl
      fun id c _ out => ?_) (.of_eq rfl))
  split_ifs with lost
  · cases out with
    | inl audit => exact .inl audit
    | inr test =>
      rw [lost.1] at test
      nomatch test
  · exact out

theorem step_calm {ev : Event} (respects : Respects obj s ev) (taken : s.step obj ev = some s') :
    Calm (renews ev) s s' := by
  cases ev with
  | patch running =>
    cases taken
    exact .of_eq rfl rfl
  | submit cid code members =>
    obtain ⟨-, rfl⟩ := of_guard taken
    exact (insert_calm s cid code false members).trans (.of_eq rfl rfl)
  | rerun cid =>
    rw [step] at taken
    split at taken
    · cases taken
    · obtain ⟨-, rfl⟩ := of_guard taken
      refine .of_hands (fun id c' other here => ?_) (.of_eq rfl)
      change (s.candidates.map _).get? id = some c' at here
      rw [Dict.get?_map] at here
      obtain ⟨c, before, rfl⟩ := Option.map_eq_some_iff.mp here
      refine ⟨c, before, fun out => ?_⟩
      rw [if_neg fun same => other (congrArg some same)]
      exact out
  | evaluated e outcome imports =>
    obtain ⟨-, rfl⟩ := of_guard taken
    exact evaluated_calm respects
  | reviewed e imports =>
    obtain ⟨-, same⟩ := Option.ite_none_right_eq_some.mp taken
    obtain ⟨fields, scored, rfl⟩ := Option.map_eq_some_iff.mp same
    exact (conclude_calm obj (s.dropEvaluation e) e fields imports (respects fields scored)).of_same
      rfl rfl
  | settleLookahead cid verdict imports =>
    obtain ⟨-, rfl⟩ := of_guard taken
    exact settleLookahead_calm respects
  | beginShortTest cid =>
    rw [step] at taken
    split at taken
    · cases taken
    · obtain ⟨-, rfl⟩ := of_guard taken
      exact .of_eq rfl rfl
  | finishShortTest test verdict imports =>
    obtain ⟨-, rfl⟩ := of_guard taken
    exact finishShortTest_calm respects
  | audit cid passed imports =>
    obtain ⟨c, here, rfl⟩ := Option.map_eq_some_iff.mp taken
    exact audit_calm here respects
  | runAudit cid =>
    rw [step] at taken
    split at taken
    · cases taken
    · next c here =>
      obtain ⟨guard, rfl⟩ := of_guard taken
      refine .update fun c' here' out => ?_
      cases here.symm.trans here'
      -- the audit did not fail, so that the look-ahead test did
      cases out with
      | inl audit => exact absurd (by rw [audit]; decide) guard.1
      | inr test => exact .inr test
  | judge cid score =>
    obtain ⟨-, rfl⟩ := of_guard taken
    exact judge_calm respects
  | demote cid imports =>
    obtain ⟨-, rfl⟩ := of_guard taken
    exact demote_calm obj s cid imports
  | retireModules imports =>
    cases taken
    exact cascadeQuarantine_calm obj s imports none
  | startRetest top | startRemark =>
    obtain ⟨-, rfl⟩ := of_guard taken
    exact .of_eq rfl rfl
  | retested verdict imports =>
    rw [step] at taken
    split at taken
    · next cid rest waiting =>
      obtain ⟨-, rfl⟩ := of_guard taken
      refine Calm.of_same (retested_calm fun pass => ?_) rfl rfl
      subst pass
      exact respects cid rest waiting
    · cases taken
  | cancelRetest =>
    cases taken
    exact .of_eq rfl rfl
  | rescore scores =>
    obtain ⟨-, rfl⟩ := of_guard taken
    have scored : Calm none s (s.rescore scores) := by
      refine .of_hands (.map (f := fun id c => if c.status = .ok then
        { c with score := (scores id).getD c.score } else c) rfl fun id c _ out => ?_) (.of_eq rfl)
      split_ifs <;> exact out
    exact scored.trans (recrown_calm obj _)
  | remarked score recrown =>
    rw [step] at taken
    split at taken
    · cases taken
    · next cid rest waiting =>
      cases taken
      cases score with
      | none =>
        have dropped : Calm none s { s with remark := rest } := .of_eq rfl rfl
        split_ifs
        · exact dropped.trans (recrown_calm obj _)
        · exact dropped
      | some score =>
        have written : Calm none s ({ s with remark := rest }.update cid { score := some score }) :=
          .of_hands (update_keeps fun _ _ out => out) (.of_eq rfl)
        split_ifs
        · exact written.trans (recrown_calm obj _)
        · exact written
  | delete ids =>
    cases taken
    exact delete_calm obj s ids
  | combine cid code ids score =>
    obtain ⟨-, rfl⟩ := of_guard taken
    refine (insert_calm s cid code true _).trans (settle_calm fun c here out => ?_)
    rw [insert, Dict.get?_set_self, Option.some.injEq] at here
    subst here
    cases out with
    | inl audit => cases audit
    | inr test => cases test
  | restart resumed =>
    cases taken
    exact restart_calm obj s resumed

theorem step_lifts {ev : Event} (harms : ¬Respects obj s ev) (taken : s.step obj ev = some s') :
    Lifts none s s' ∧ renews ev = none := by
  cases ev with
  | evaluated e outcome imports =>
    obtain ⟨-, rfl⟩ := of_guard taken
    refine ⟨?_, rfl⟩
    cases outcome with
    | scored score =>
      rw [Respects] at harms
      rw [evaluated]
      dsimp only
      by_cases task : obj.kind = .task
      · rw [if_pos task]
        simp only [Spares, not_forall] at harms
        obtain ⟨c, here, out, lifted⟩ := harms
        exact update_lifts rfl here out fun still => lifted ⟨still, fun both => both.1 task⟩
      · rw [if_neg task]
        refine conclude_lifts (s := s.dropEvaluation e) fun spares => harms fun c here out => ?_
        exact ⟨(spares c here out).1, fun both => (spares c here out).2 both.2⟩
    | _ => exact absurd trivial harms
  | reviewed e imports =>
    obtain ⟨-, same⟩ := Option.ite_none_right_eq_some.mp taken
    obtain ⟨fields, scored, rfl⟩ := Option.map_eq_some_iff.mp same
    refine ⟨conclude_lifts (s := s.dropEvaluation e) fun spares => harms fun fields' scored' => ?_, rfl⟩
    cases scored.symm.trans scored'
    exact spares
  | settleLookahead cid verdict imports =>
    obtain ⟨-, rfl⟩ := of_guard taken
    simp only [Respects, not_forall] at harms
    obtain ⟨c, here, pending, harms⟩ := harms
    refine ⟨?_, rfl⟩
    simp only [Store.settleLookahead, here, pending, ne_eq, not_true_eq_false, if_false]
    exact settle_lifts (s := { s with tests := s.tests.erase cid }) harms
  | finishShortTest test verdict imports =>
    obtain ⟨-, rfl⟩ := of_guard taken
    simp only [Respects, not_forall] at harms
    obtain ⟨v, c, rfl, answers, here, short, harms⟩ := harms
    refine ⟨?_, rfl⟩
    simp only [Store.finishShortTest, here, short, answers, ne_eq, not_true_eq_false, or_self, if_false]
    exact settle_lifts (s := { s with shortTests := s.shortTests.erase test }) harms
  | audit cid passed imports =>
    obtain ⟨c, here, rfl⟩ := Option.map_eq_some_iff.mp taken
    refine ⟨?_, rfl⟩
    cases passed with
    | false => exact absurd trivial harms
    | true =>
      simp only [Respects, Spares, not_forall] at harms
      obtain ⟨c', here', c'', here'', out, lifted⟩ := harms
      cases here.symm.trans here'
      cases here.symm.trans here''
      rw [Store.audit, if_pos rfl]
      split_ifs with beats
      · exact .inr fun clear => (note_clear_iff.mp clear).1 ⟨c, here, out⟩
      · exact update_lifts rfl here out fun still => lifted ⟨still, beats⟩
  | judge cid score =>
    obtain ⟨-, rfl⟩ := of_guard taken
    refine ⟨?_, rfl⟩
    simp only [Respects, Spares, not_forall] at harms
    obtain ⟨c, here, out, lifted⟩ := harms
    have beats : better (some score) (s.bestScore s.bestId) true = true := by
      by_contra worse
      exact lifted ⟨out, worse⟩
    rw [Store.judge]
    dsimp only
    rw [if_pos beats]
    split_ifs
    · exact .inr fun clear => (note_clear_iff.mp clear).1 ⟨c, here, out⟩
    · exact .inr fun clear => (note_clear_iff.mp clear).1 ⟨c, here, out⟩
  | retested verdict imports =>
    cases verdict with
    | pass =>
      simp only [Respects, Spares, not_forall] at harms
      obtain ⟨cid, rest, waiting, c, here, out, lifted⟩ := harms
      rw [step, waiting] at taken
      obtain ⟨-, rfl⟩ := of_guard taken
      refine ⟨?_, rfl⟩
      exact update_lifts rfl here out fun still => lifted ⟨still, not_false⟩
    | _ => exact absurd trivial harms
  | _ => exact absurd trivial harms

/-! ## Runs -/

end Store

/-- An objective, and the candidates that were disqualified since they came in or were evaluated again. -/
structure Standing where
  store : Store
  out : List CandidateId
  deriving DecidableEq

namespace Standing

open Store

variable (obj : Objective)

def step (h : Standing) (ev : Event) : Option Standing :=
  (h.store.step obj ev).map fun s => ⟨s,
    h.out.filter (fun cid => some cid ≠ renews ev) ++
      (s.candidates.entries.filter fun pair => pair.2.Disqualified).map Prod.fst⟩

structure Permanent (h : Standing) : Prop where
  stays : ∀ cid ∈ h.out, ∀ c, h.store.candidates.get? cid = some c → c.Disqualified
  unranked : ∀ cid ∈ h.out, ∀ limit c, (cid, c) ∉ ranked obj h.store.candidates limit
  clear : Clear h.store.log

/-- What was disqualified is known. -/
structure Kept (h : Standing) : Prop extends h.Permanent obj where
  listed : ∀ cid, h.store.Out cid → cid ∈ h.out

variable {obj : Objective}

theorem Permanent.of_stays {h : Standing}
    (stays : ∀ cid ∈ h.out, ∀ c, h.store.candidates.get? cid = some c → c.Disqualified)
    (clear : Clear h.store.log) : h.Permanent obj where
  stays := stays
  unranked cid mem limit c listed := by
    obtain ⟨here, is_⟩ := of_mem_ranked listed
    exact not_disqualified_of_ranked is_ (stays cid mem c here)
  clear := clear

theorem mem_out {s : Store} {out : List CandidateId} {ev : Event} {cid : CandidateId} :
    cid ∈ out.filter (fun cid => some cid ≠ renews ev) ++
        (s.candidates.entries.filter fun pair => pair.2.Disqualified).map Prod.fst ↔
      (cid ∈ out ∧ some cid ≠ renews ev) ∨ s.Out cid := by
  rw [List.mem_append, List.mem_filter, decide_eq_true_iff, List.mem_map]
  refine or_congr_right ⟨?_, ?_⟩
  · rintro ⟨⟨id, c⟩, mem, rfl⟩
    obtain ⟨here, out⟩ := List.mem_filter.mp mem
    exact ⟨c, Dict.mem_entries_iff.mp here, of_decide_eq_true out⟩
  · rintro ⟨c, here, out⟩
    exact ⟨(cid, c), List.mem_filter.mpr ⟨Dict.mem_entries_iff.mpr here, decide_eq_true out⟩, rfl⟩

theorem Kept.step {h h' : Standing} {ev : Event} (kept : h.Kept obj)
    (respects : Respects obj h.store ev) (taken : h.step obj ev = some h') : h'.Kept obj := by
  obtain ⟨s, stepped, rfl⟩ := Option.map_eq_some_iff.mp taken
  have calm := step_calm respects stepped
  refine { Permanent.of_stays (fun cid mem c' here => ?_) (calm.clear.mpr kept.clear) with
    listed := fun cid out => mem_out.mpr (.inr out) }
  cases mem_out.mp mem with
  | inl before =>
    obtain ⟨c, there, still⟩ := calm.keeps cid c' before.2 here
    exact still (kept.stays cid before.1 c there)
  | inr out =>
    obtain ⟨c, there, out⟩ := out
    cases there.symm.trans here
    exact out

theorem Kept.breaks {h h' : Standing} {ev : Event} (kept : h.Kept obj)
    (harms : ¬Respects obj h.store ev) (taken : h.step obj ev = some h') : ¬h'.Permanent obj := by
  obtain ⟨s, stepped, rfl⟩ := Option.map_eq_some_iff.mp taken
  intro permanent
  obtain ⟨lifts, old⟩ := step_lifts harms stepped
  obtain ⟨cid, c', -, out, here, lifted⟩ | unclear := lifts
  · have stays : some cid ≠ renews ev := by
      rw [old]
      exact Option.some_ne_none cid
    exact lifted (permanent.stays cid (mem_out.mpr (.inl ⟨kept.listed cid out, stays⟩)) c' here)
  · exact unclear permanent.clear

/-- An objective without candidates. -/
def opened : Standing := ⟨Store.opened, []⟩

theorem opened_kept (obj : Objective) : opened.Kept obj where
  stays _ mem := nomatch mem
  unranked _ mem := nomatch mem
  clear _ mem := nomatch mem
  listed _ out := by
    obtain ⟨c, here, -⟩ := out
    nomatch here

/-- Scripts report their scores, and need an audit. -/
def auditedRate : Objective := { hitRate with requireAudit := true }

/-- A script is scored best, and the operator disqualifies it before the auditor answers. -/
def lateAudit (passed : Bool) : List Event :=
  [.submit "leak".toList "one".toList [],
    .evaluated ⟨"leak".toList, none, false, none⟩ (.scored (some 2)) fun _ => false,
    .demote "leak".toList fun _ => false,
    .audit "leak".toList passed fun _ => false]

def answeredFail : Standing where
  store := { Store.opened with
    candidates := Dict.empty.set "leak".toList { reportedRow 1 "one".toList 2 with audit := .fail }
    seqHwm := 1
    log := [⟨.contended, "leak".toList, false, some 2, none⟩] }
  out := ["leak".toList, "leak".toList]

def answeredPass : Standing where
  store := { Store.opened with
    candidates := Dict.empty.set "leak".toList { reportedRow 1 "one".toList 2 with audit := .pass }
    bestId := some "leak".toList
    seqHwm := 1
    log := [⟨.earned, "leak".toList, true, some 2, none⟩,
      ⟨.contended, "leak".toList, false, some 2, none⟩] }
  out := ["leak".toList]

theorem lateAudit_fail : (lateAudit false).foldlM (step auditedRate) opened = some answeredFail := by
  with_unfolding_all decide

theorem lateAudit_pass : (lateAudit true).foldlM (step auditedRate) opened = some answeredPass := by
  with_unfolding_all decide

end Standing

end FreeSwarm.Objectives
