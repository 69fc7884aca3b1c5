import FreeSwarm.Foundation.FairRun
import FreeSwarm.Objectives.Events

/-!
# How the title is taken

Whoever loses the title hands it on to a ranked candidate, which is not disqualified. Anyone else has to
be better than the candidate that holds it. An evaluation compares with the candidate that held the title
when the objective was read, which may be another one when it ends: without an audit a candidate may then
take the title from a better one, and does exactly if it lies between the two.
-/

namespace FreeSwarm.Objectives

open FreeSwarm.Foundation

namespace Store

variable {obj : Objective} {s s' s'' : Store}

/-! ## What is handed on -/

variable {cid : CandidateId} {c : Candidate}

theorem of_mem_ranked {candidates : Candidates} {limit : Nat}
    (mem : (cid, c) ∈ ranked obj candidates limit) : candidates.get? cid = some c ∧ c.Ranked := by
  have listed := List.mem_filter.mp ((List.mem_insertionSort _).mp (List.mem_of_mem_take mem))
  exact ⟨Dict.mem_entries_iff.mp listed.1, of_decide_eq_true listed.2⟩

theorem not_disqualified_of_ranked (is_ : c.Ranked) : ¬c.Disqualified := by
  rintro (audit | test)
  · exact is_.2.2.2 audit
  · exact is_.2.2.1 (by rw [test]; decide)

theorem not_out_of_ranked (here : s.candidates.get? cid = some c)
    (is_ : c.Ranked) : ¬s.Out cid := by
  rintro ⟨c', here', out⟩
  rw [here] at here'
  obtain rfl := Option.some.inj here'
  exact not_disqualified_of_ranked is_ out

/-- The title may be handed on, to candidates that are not disqualified; nothing else happens to it. -/
def Hands (s s' : Store) : Prop :=
  ∃ hands : List Title, (∀ t ∈ hands, t.how = .handed ∧ t.disqualified = false) ∧
    s'.log = hands ++ s.log

theorem Hands.of_eq (same : s'.log = s.log) : Hands s s' := ⟨[], nofun, same⟩

theorem Hands.trans (first : Hands s s') (second : Hands s' s'') : Hands s s'' := by
  obtain ⟨hands, all, same⟩ := first
  obtain ⟨hands', all', same'⟩ := second
  refine ⟨hands' ++ hands, fun t mem => ?_, by rw [same', same, List.append_assoc]⟩
  cases List.mem_append.mp mem with
  | inl mem => exact all' t mem
  | inr mem => exact all t mem

theorem Hands.note {score : Option Score} (in_ : ¬s.Out cid) :
    Hands s ((s.note .handed cid score).crown cid) := by
  refine ⟨[⟨.handed, cid, s.Out cid, score, s.bestScore s.bestId⟩], fun t mem => ?_, rfl⟩
  obtain rfl := List.mem_singleton.mp mem
  exact ⟨rfl, decide_eq_false in_⟩

theorem handOver_hands (obj : Objective) (s : Store) : Hands s (s.handOver obj) := by
  rw [handOver]
  split
  · exact .of_eq rfl
  · next cid c rest rows =>
    have mem : (cid, c) ∈ ranked obj s.candidates 1 := by
      rw [rows]
      exact List.mem_cons_self
    obtain ⟨here, is_⟩ := of_mem_ranked mem
    have hands : Hands { s with bestId := none }
        ((({ s with bestId := none } : Store).note .handed cid c.score).crown cid) :=
      .note (not_out_of_ranked here is_)
    exact hands

theorem handOver_candidates (obj : Objective) (s : Store) :
    (s.handOver obj).candidates = s.candidates := by
  rw [handOver]
  split <;> rfl

theorem disqualifyDependents_hands (obj : Objective) (s : Store) (ids : List CandidateId)
    (seqs : List Nat) : Hands s (s.disqualifyDependents obj ids seqs) := by
  rw [disqualifyDependents]
  dsimp only
  split_ifs
  · exact .of_eq rfl
  · exact handOver_hands obj (s.disqualify _)
  · exact .of_eq rfl

theorem cascadeQuarantine_hands (obj : Objective) (s : Store) (imports : Text → Bool)
    (origin : Option CandidateId) : Hands s (s.cascadeQuarantine obj imports origin) := by
  rw [cascadeQuarantine]
  dsimp only
  split_ifs
  · exact .of_eq rfl
  · have first : Hands s _ := disqualifyDependents_hands obj (s.disqualify (Tainted imports origin)) []
      ((s.candidates.entries.filter fun pair => Tainted imports origin pair.1 pair.2).map
        fun pair => pair.2.seq)
    split
    · exact first.trans (handOver_hands obj _)
    · split_ifs
      · exact first.trans (handOver_hands obj _)
      · exact first

theorem takeTitle_candidates (s : Store) (champion : Option (CandidateId × Candidate)) :
    (s.takeTitle champion).candidates = s.candidates := by
  match champion with
  | none => rfl
  | some (cid, c) =>
    rw [takeTitle]
    split_ifs <;> rfl

theorem takeTitle_hands {champion : Option (CandidateId × Candidate)}
    (ranked_ : ∀ pair, champion = some pair → s.candidates.get? pair.1 = some pair.2 ∧ pair.2.Ranked) :
    Hands s (s.takeTitle champion) := by
  match champion with
  | none => exact .of_eq rfl
  | some (cid, c) =>
    obtain ⟨here, is_⟩ := ranked_ (cid, c) rfl
    rw [takeTitle]
    split_ifs
    · exact .of_eq rfl
    · exact .note (not_out_of_ranked here is_)

theorem recrown_hands (obj : Objective) (s : Store) : Hands s (s.recrown obj) := by
  have taken : Hands s (s.takeTitle
      ((ranked obj s.candidates 200).find? fun pair => MayHold obj pair.2)) :=
    takeTitle_hands fun _ found => of_mem_ranked (List.mem_of_find?_eq_some found)
  rw [recrown]
  split
  · split_ifs
    · exact taken.trans (.of_eq rfl)
    · exact taken
  · exact taken

/-! ## What is settled -/

/-- A candidate that was scored contends for the title, or does not. -/
def bid (obj : Objective) (s : Store) (bestId : Option CandidateId) (cid : CandidateId)
    (fields : Fields) : Store :=
  if s.Contends obj bestId fields then
    s.note (if obj.requireAudit then .contended else .earned) cid fields.score.join
  else s

theorem settle_hands (obj : Objective) (s : Store) (bestId : Option CandidateId) (cid : CandidateId)
    (fields : Fields) (imports : Text → Bool) :
    Hands (s.bid obj bestId cid fields) (s.settle obj bestId cid fields imports) := by
  let written := (s.bid obj bestId cid fields).update cid
    (if s.Contends obj bestId fields && obj.requireAudit then
      { fields with audit := some .pending } else fields)
  let retired := if fields.lookahead = some .fail then
    written.cascadeQuarantine obj imports (some cid) else written
  have hands : Hands (s.bid obj bestId cid fields) retired := by
    show Hands _ (if fields.lookahead = some .fail then
      written.cascadeQuarantine obj imports (some cid) else written)
    split_ifs
    · exact cascadeQuarantine_hands obj written imports (some cid)
    · exact .of_eq rfl
  show Hands _ (if (s.Contends obj bestId fields && !obj.requireAudit) = true then
    retired.crown cid else retired)
  split_ifs
  · exact hands.trans (.of_eq rfl)
  · exact hands

/-! ## The law -/

/-- Whoever took the title was better than the candidate that held it. -/
def Fair (higher : Bool) (log : List Title) : Prop :=
  ∀ t ∈ log, t.how = .earned → better t.score t.holder higher = true

variable {higher : Bool}

theorem Hands.fair_log_iff (hands : Hands s s') : Fair higher s'.log ↔ Fair higher s.log := by
  obtain ⟨hands, all, same⟩ := hands
  rw [same]
  constructor
  · exact fun fair t mem => fair t (List.mem_append_right _ mem)
  · intro fair t mem earned
    cases List.mem_append.mp mem with
    | inl mem =>
      rw [(all t mem).1] at earned
      nomatch earned
    | inr mem => exact fair t mem earned

theorem note_fair_iff {how : How} {cid : CandidateId} {score : Option Score} :
    Fair higher (s.note how cid score).log ↔
      (how = .earned → better score (s.bestScore s.bestId) higher = true) ∧ Fair higher s.log :=
  List.forall_mem_cons

theorem settle_fair_iff {bestId : Option CandidateId} {cid : CandidateId} {fields : Fields}
    {imports : Text → Bool} :
    Fair higher (s.settle obj bestId cid fields imports).log ↔
      (obj.requireAudit = false → s.Contends obj bestId fields = true →
        better fields.score.join (s.bestScore s.bestId) higher = true) ∧ Fair higher s.log := by
  rw [(settle_hands obj s bestId cid fields imports).fair_log_iff, bid]
  by_cases contends : s.Contends obj bestId fields = true
  · rw [if_pos contends, note_fair_iff]
    cases obj.requireAudit <;> simp [contends]
  · rw [if_neg contends]
    simp [contends]

variable {cid : CandidateId}

variable {imports : Text → Bool}

theorem settle_fresh_fair_iff {fields : Fields} :
    Fair obj.higherIsBetter (s.settle obj s.bestId cid fields imports).log ↔
      Fair obj.higherIsBetter s.log := by
  rw [settle_fair_iff]
  refine and_iff_right fun _ contends => ?_
  exact (Bool.and_eq_true_iff.mp contends).2

/-! ## Steps -/

/-- What an evaluation scored, when it is settled at once and takes the title from the candidate that held
it when the objective was read, is better than the candidate that holds the title now. -/
def Surpasses (obj : Objective) (s : Store) (e : Evaluation) (fields : Fields) : Prop :=
  fields.lookahead ≠ some .pending → obj.requireAudit = false →
    MayWin obj fields = true →
      better fields.score.join (s.bestScore e.bestId) obj.higherIsBetter = true →
        better fields.score.join (s.bestScore s.bestId) obj.higherIsBetter = true

/-- An evaluation that ends does not lie between the candidate that held the title when the objective was
read and the one that holds it now. -/
def Timely (obj : Objective) (s : Store) : Event → Prop
  | .evaluated e (.scored score) _ => obj.kind ≠ .task → Surpasses obj s e (obj.fieldsOf score)
  | .reviewed e _ => ∀ fields, e.scored = some fields → Surpasses obj s e fields
  | _ => True

theorem conclude_fair_iff {e : Evaluation} {fields : Fields} :
    Fair obj.higherIsBetter (s.conclude obj e fields imports).log ↔
      Surpasses obj s e fields ∧ Fair obj.higherIsBetter s.log := by
  rw [conclude]
  by_cases tests : fields.lookahead = some .pending
  · rw [if_pos tests]
    exact (and_iff_right fun other => absurd tests other).symm
  · rw [if_neg tests, settle_fair_iff]
    refine and_congr_left fun _ => ?_
    constructor
    · exact fun fair _ none_ may beats => fair none_ (Bool.and_eq_true_iff.mpr ⟨may, beats⟩)
    · intro beats none_ contends
      obtain ⟨may, beaten⟩ := Bool.and_eq_true_iff.mp contends
      exact beats tests none_ may beaten

theorem evaluated_fair_iff {e : Evaluation} {outcome : Outcome} :
    Fair obj.higherIsBetter (s.evaluated obj e outcome imports).log ↔
      Timely obj s (.evaluated e outcome imports) ∧ Fair obj.higherIsBetter s.log := by
  cases outcome with
  | failed =>
    refine conclude_fair_iff.trans (and_congr_left fun _ => iff_true_intro ?_)
    intro _ _ may
    simp [MayWin] at may
  | scored score =>
    rw [evaluated]
    dsimp only
    by_cases task : obj.kind = .task
    · rw [if_pos task]
      exact (and_iff_right fun other => absurd task other).symm
    · rw [if_neg task]
      refine conclude_fair_iff.trans (and_congr_left fun _ => ?_)
      exact ⟨fun beats _ => beats, fun beats => beats task⟩
  | raised others | sandboxDown =>
    rw [evaluated]
    split_ifs
    · exact (and_iff_right trivial).symm
    · exact (and_iff_right trivial).symm

theorem settleLookahead_fair_iff {verdict : Lookahead} :
    Fair obj.higherIsBetter (s.settleLookahead obj cid verdict imports).log ↔
      Fair obj.higherIsBetter s.log := by
  rw [settleLookahead]
  dsimp only
  split
  · rfl
  · split_ifs
    · rfl
    · exact settle_fresh_fair_iff

theorem finishShortTest_fair_iff {test : ShortTest} {verdict : Option Lookahead}
    :
    Fair obj.higherIsBetter (s.finishShortTest obj test verdict imports).log ↔
      Fair obj.higherIsBetter s.log := by
  unfold finishShortTest
  dsimp only
  split
  · split_ifs
    · rfl
    · exact settle_fresh_fair_iff
  · rfl

theorem audit_fair_iff {c : Candidate} {passed : Bool} :
    Fair obj.higherIsBetter (s.audit obj cid c passed imports).log ↔
      Fair obj.higherIsBetter s.log := by
  rw [audit]
  split_ifs with pass beats
  · exact note_fair_iff.trans (and_iff_right fun _ => beats)
  · rfl
  · have first : Hands s _ :=
      cascadeQuarantine_hands obj (s.update cid { audit := some .fail }) imports (some cid)
    exact (first.trans (disqualifyDependents_hands obj _ [cid] [])).fair_log_iff

theorem judge_fair_iff (judged : obj.kind = .judge) {cid : CandidateId} {score : Score} :
    Fair obj.higherIsBetter (s.judge obj cid score).log ↔ Fair obj.higherIsBetter s.log := by
  rw [judge]
  dsimp only
  split_ifs with beats audited
  · exact note_fair_iff.trans (and_iff_right nofun)
  · refine note_fair_iff.trans (and_iff_right fun _ => ?_)
    rw [obj.higher (.inr judged)]
    exact beats
  · rfl

/-- A candidate that is disqualified hands the title on, and so does what is built as it is, and what is
made of it. -/
theorem family_hands (obj : Objective) (s : Store) (cid : CandidateId) (champion : Bool)
    (fields : Fields) (imports : Text → Bool) :
    Hands s (((if champion = true then (s.update cid fields).handOver obj else s.update cid fields)
      |>.cascadeQuarantine obj imports (some cid)).disqualifyDependents obj [cid] []) := by
  have first : Hands s (if champion = true then (s.update cid fields).handOver obj
      else s.update cid fields) := by
    split_ifs
    · exact handOver_hands obj (s.update cid fields)
    · exact .of_eq rfl
  exact (first.trans (cascadeQuarantine_hands obj _ imports (some cid))).trans
    (disqualifyDependents_hands obj _ [cid] [])

theorem demote_hands (obj : Objective) (s : Store) (cid : CandidateId) (imports : Text → Bool) :
    Hands s (s.demote obj cid imports) :=
  family_hands obj s cid _ _ imports

theorem retested_hands (obj : Objective) (s : Store) (cid : CandidateId) (verdict : Lookahead)
    (imports : Text → Bool) : Hands s (s.retested obj cid verdict imports) := by
  rw [retested]
  split_ifs
  · exact .of_eq rfl
  · exact .of_eq rfl
  · exact family_hands obj s cid _ _ imports

theorem delete_hands (obj : Objective) (s : Store) (ids : List CandidateId) :
    Hands s (s.delete obj ids) := by
  rw [delete]
  dsimp only
  split_ifs
  · exact handOver_hands obj { s with candidates := _ }
  · exact .of_eq rfl

theorem step_fair_iff {ev : Event} (taken : s.step obj ev = some s') :
    Fair obj.higherIsBetter s'.log ↔ Timely obj s ev ∧ Fair obj.higherIsBetter s.log := by
  -- what a step does that neither settles nor answers
  have quiet (hands : Hands s s') (timely : Timely obj s ev) :
      Fair obj.higherIsBetter s'.log ↔ Timely obj s ev ∧ Fair obj.higherIsBetter s.log :=
    hands.fair_log_iff.trans (and_iff_right timely).symm
  cases ev with
  | patch running | cancelRetest | restart resumed =>
    cases taken
    exact quiet (.of_eq rfl) trivial
  | submit cid code members | startRetest top | startRemark =>
    obtain ⟨-, rfl⟩ := of_guard taken
    exact quiet (.of_eq rfl) trivial
  | rerun cid | beginShortTest cid | runAudit cid =>
    rw [step] at taken
    split at taken
    · nomatch taken
    · obtain ⟨-, rfl⟩ := of_guard taken
      exact quiet (.of_eq rfl) trivial
  | evaluated e outcome imports =>
    obtain ⟨-, rfl⟩ := of_guard taken
    exact evaluated_fair_iff
  | reviewed e imports =>
    obtain ⟨-, same⟩ := Option.ite_none_right_eq_some.mp taken
    obtain ⟨fields, scored, rfl⟩ := Option.map_eq_some_iff.mp same
    refine conclude_fair_iff.trans (and_congr_left fun _ => ?_)
    constructor
    · intro beats fields' scored'
      cases scored.symm.trans scored'
      exact beats
    · exact fun beats => beats fields scored
  | settleLookahead cid verdict imports =>
    obtain ⟨-, rfl⟩ := of_guard taken
    exact settleLookahead_fair_iff.trans (and_iff_right trivial).symm
  | finishShortTest test verdict imports =>
    obtain ⟨-, rfl⟩ := of_guard taken
    exact finishShortTest_fair_iff.trans (and_iff_right trivial).symm
  | audit cid passed imports =>
    obtain ⟨c, -, rfl⟩ := Option.map_eq_some_iff.mp taken
    exact audit_fair_iff.trans (and_iff_right trivial).symm
  | judge cid score =>
    obtain ⟨guard, rfl⟩ := of_guard taken
    exact (judge_fair_iff guard.1).trans (and_iff_right trivial).symm
  | demote cid imports =>
    obtain ⟨-, rfl⟩ := of_guard taken
    exact quiet (demote_hands obj s cid imports) trivial
  | retireModules imports =>
    cases taken
    exact quiet (cascadeQuarantine_hands obj s imports none) trivial
  | retested verdict imports =>
    rw [step] at taken
    split at taken
    · next cid rest waiting =>
      obtain ⟨-, rfl⟩ := of_guard taken
      exact quiet (retested_hands obj { s with retest := _ } cid verdict imports) trivial
    · nomatch taken
  | rescore scores =>
    obtain ⟨-, rfl⟩ := of_guard taken
    exact quiet (recrown_hands obj (s.rescore scores)) trivial
  | remarked score recrown =>
    rw [step] at taken
    split at taken
    · nomatch taken
    · next cid rest waiting =>
      cases taken
      refine quiet ?_ trivial
      split_ifs
      · refine Hands.trans ?_ (recrown_hands obj _)
        cases score <;> exact .of_eq rfl
      · cases score <;> exact .of_eq rfl
  | delete ids =>
    cases taken
    exact quiet (delete_hands obj s ids) trivial
  | combine cid code ids score =>
    obtain ⟨-, rfl⟩ := of_guard taken
    exact settle_fresh_fair_iff.trans (and_iff_right trivial).symm

/-- In a run in which nobody has taken the title yet, whoever takes it is better than the candidate that
holds it exactly if each evaluation is in time. -/
theorem fair_iff (obj : Objective) (run : Run (fun s => step obj s) Always)
    (begins : (run.states 0).log = []) :
    (∀ n, Fair obj.higherIsBetter (run.states n).log) ↔
      ∀ n ev, run.events n = some ev → Timely obj (run.states n) ev := by
  refine run.holds_iff (fun s => Fair obj.higherIsBetter s.log)
    (fun s => Fair obj.higherIsBetter s.log) (Timely obj) ?_ (fun _ fair => fair) ?_ ?_
  · rw [begins]
    exact fun t mem => nomatch mem
  · exact fun s ev s' fair _ timely taken => (step_fair_iff taken).mpr ⟨timely, fair⟩
  · exact fun s ev s' _ _ late taken fair => late ((step_fair_iff taken).mp fair).1

/-! ## An objective without audits -/

/-- Scripts report their scores, and nothing else is asked of them. -/
def hitRate : Objective where
  kind := .reported
  higherIsBetter := true
  splitDate := none
  midCut := none
  lookaheadCheck := false
  requireAudit := false
  higher := by decide
  split := by decide

/-- An objective without candidates. -/
def opened : Store where
  running := true
  candidates := .empty
  bestId := none
  seqHwm := 0
  evaluations := []
  tests := []
  shortTests := []
  retest := none
  remark := []
  log := []

/-- Two scripts are submitted at the same time, and the second one is evaluated first. -/
def slowFirst (score : Score) : List Event :=
  [.submit "slow".toList "one".toList [], .submit "fast".toList "two".toList [],
    .evaluated ⟨"fast".toList, none, false, none⟩ (.scored (some 2)) fun _ => false,
    .evaluated ⟨"slow".toList, none, false, none⟩ (.scored (some score)) fun _ => false]

def reportedRow (seq : Nat) (code : Text) (score : Score) : Candidate where
  seq := seq
  ensemble := false
  code := code
  members := []
  status := .ok
  score := some score
  lookahead := .skipped
  audit := .none

/-- Both scripts took the title. -/
def slowLast (score : Score) : Store where
  running := true
  candidates := (Dict.empty.set "slow".toList (reportedRow 1 "one".toList score)).set "fast".toList
    (reportedRow 2 "two".toList 2)
  bestId := some "slow".toList
  seqHwm := 2
  evaluations := []
  tests := []
  shortTests := []
  retest := none
  remark := []
  log := [⟨.earned, "slow".toList, false, some score, some 2⟩,
    ⟨.earned, "fast".toList, false, some 2, none⟩]

theorem slowFirst_better : (slowFirst 3).foldlM (step hitRate) opened = some (slowLast 3) := by
  with_unfolding_all decide

theorem slowFirst_worse : (slowFirst 1).foldlM (step hitRate) opened = some (slowLast 1) := by
  with_unfolding_all decide

/-- The slower one is better, and takes the title fairly. -/
theorem slowLast_fair : Fair true (slowLast 3).log := by
  let run := Run.ofEvents (slowFirst 3) opened (slowLast 3) slowFirst_better
  refine (fair_iff hitRate run rfl).mpr (fun n ev event => ?_) 4
  match n with
  | 0 | 1 =>
    cases event
    trivial
  | 2 | 3 =>
    cases event
    intro _ _ _ _ _
    with_unfolding_all decide
  | n + 4 => nomatch event

/-- The slower one is worse than the faster one, and takes the title from it. -/
theorem slowLast_unfair : ∃ run : Run (fun s => step hitRate s) Always,
    (run.states 0).log = [] ∧ (run.states 4).bestId = some "slow".toList ∧
      ¬Fair true (run.states 4).log := by
  refine ⟨Run.ofEvents (slowFirst 1) opened (slowLast 1) slowFirst_worse, rfl, ?_, fun fair => ?_⟩
  · rw [Run.ofEvents_last slowFirst_worse 4 (Nat.le_refl _)]
    rfl
  · rw [Run.ofEvents_last slowFirst_worse 4 (Nat.le_refl _)] at fair
    have beats := fair ⟨.earned, "slow".toList, false, some 1, some 2⟩ List.mem_cons_self rfl
    revert beats
    with_unfolding_all decide

end Store

end FreeSwarm.Objectives
