import FreeSwarm.Objectives.Disqualified
import FreeSwarm.Objectives.Eligible

/-!
# Who holds the title

Not every way to the title asks whether a candidate may hold it. A title that is handed on goes to the
first ranked candidate, an audit or a judgement looks at the score alone, and an audit that fails leaves
the title where it is unless the modules go as well. A step keeps the title with a candidate that may hold
it exactly if it is sound, which is said here of each one by what was there before it.
-/

namespace FreeSwarm.Objectives

open FreeSwarm.Foundation

namespace Store

variable {obj : Objective} {s s' : Store}

/-! ## What goes with a candidate, and with its modules -/

/-- The rows that are left when a candidate is disqualified: what is built on its modules goes, and what is
made of any of these. -/
def purged (rows : Candidates) (cid : CandidateId) (imports : Text → Bool) : Candidates :=
  withoutDependents (withoutTainted rows imports (some cid)) [cid] []

/-- What is built on the modules of a candidate is disqualified, and what is made of any of these. -/
def purge (obj : Objective) (s : Store) (cid : CandidateId) (imports : Text → Bool) : Store :=
  (s.cascadeQuarantine obj imports (some cid)).disqualifyDependents obj [cid] []

variable {cid : CandidateId} {imports : Text → Bool} {c : Candidate}

@[simp]
theorem purge_candidates :
    (s.purge obj cid imports).candidates = purged s.candidates cid imports := by
  rw [purge, disqualifyDependents_candidates, cascadeQuarantine_candidates, purged]

theorem purge_passes (obj : Objective) (s : Store) (cid : CandidateId) (imports : Text → Bool) :
    Passes obj s (s.purge obj cid imports) :=
  (cascadeQuarantine_passes obj s imports (some cid)).trans (disqualifyDependents_passes obj _ [cid] [])

theorem purge_heads (vacates : Vacates s imports (some cid)) :
    Heads obj (s.purge obj cid imports) :=
  (disqualifyDependents_passes obj _ [cid] []).heads (cascadeQuarantine_heads vacates)

theorem Vacates.of_none {origin : Option CandidateId} (none_ : s.bestId = none)
    (hits : tainted s.candidates imports origin ≠ []) : Vacates s imports origin := by
  refine ⟨hits, fun cid c best => ?_⟩
  rw [none_] at best
  nomatch best

/-- A title that is not vacated stays, unless what its holder is made of goes. -/
theorem purge_bestId (not_ : ¬Vacates s imports (some cid))
    (missed : ∀ id c, s.bestId = some id →
      (withoutTainted s.candidates imports (some cid)).get? id = some c →
        dependents (withoutTainted s.candidates imports (some cid)) [cid] [] id c = false) :
    (s.purge obj cid imports).bestId = s.bestId := by
  have same := @cascadeQuarantine_bestId obj s imports (some cid) not_
  obtain ⟨⟨id, c, best, here, hit⟩, -⟩ | ⟨-, unfolds⟩ := disqualifyDependents_cases obj
    (s.cascadeQuarantine obj imports (some cid)) [cid] []
  · rw [cascadeQuarantine_candidates] at here hit
    rw [missed id c (same.symm.trans best) here] at hit
    nomatch hit
  · rw [purge, unfolds]
    exact same

theorem purge_held_iff (held : Held obj s) {cid : CandidateId} {imports : Text → Bool} :
    Held obj (s.purge obj cid imports) ↔
      (Vacant (purged s.candidates cid imports) (tainted s.candidates imports (some cid) ≠ []) s.bestId →
        Heir obj (purged s.candidates cid imports)) := by
  rw [← @purge_candidates obj]
  refine (purge_passes obj s cid imports).held_iff_vacant held ?_ ?_
  · exact fun none_ hits => purge_heads (.of_none none_ hits)
  · intro none_ missed
    rw [purge_bestId (fun vacates => missed vacates.1), none_]
    intro id c best
    rw [none_] at best
    nomatch best

/-- The title goes to a candidate that may hold it, if one is disqualified and it has to go to somebody. -/
def FamilySound (obj : Objective) (s : Store) (cid : CandidateId) (fields : Fields)
    (imports : Text → Bool) : Prop :=
  let rows := (s.update cid fields).candidates
  s.bestId = some cid ∨ Vacant (purged rows cid imports) (tainted rows imports (some cid) ≠ []) s.bestId →
    Heir obj (purged rows cid imports)

variable {fields : Fields}

theorem family_held_iff (held : Held obj s) {cid : CandidateId}
    {imports : Text → Bool} :
    Held obj ((if (decide (s.bestId = some cid)) = true then (s.update cid fields).handOver obj
      else s.update cid fields).purge obj cid imports) ↔ FamilySound obj s cid fields imports := by
  by_cases champion : s.bestId = some cid
  · rw [if_pos (decide_eq_true champion), FamilySound]
    have heads := (purge_passes obj ((s.update cid fields).handOver obj) cid imports).heads handOver_heads
    rw [heads.held_iff_heir, purge_candidates, handOver_candidates]
    exact (imp_iff_right (.inl champion)).symm
  · rw [if_neg (mt of_decide_eq_true champion), purge_held_iff (held.update_of_ne champion fields),
      FamilySound]
    exact imp_congr_left (or_iff_right champion).symm

/-- An audit that failed leaves nobody with the title who may not hold it. -/
def FailSound (obj : Objective) (s : Store) (cid : CandidateId) (imports : Text → Bool) : Prop :=
  let rows := (s.update cid { audit := some .fail }).candidates
  (s.bestId = some cid → tainted rows imports (some cid) ≠ []) ∧
    (Vacant (purged rows cid imports) (tainted rows imports (some cid) ≠ []) s.bestId →
      Heir obj (purged rows cid imports))

theorem fail_held_iff (held : Held obj s) {cid : CandidateId} {imports : Text → Bool} :
    Held obj ((s.update cid { audit := some .fail }).purge obj cid imports) ↔
      FailSound obj s cid imports := by
  rw [FailSound]
  by_cases champion : s.bestId = some cid
  · -- the row of the candidate is disqualified, and stays so
    have out : ∀ c, (s.update cid { audit := some .fail }).candidates.get? cid = some c →
        c.audit = .fail := by
      intro c here
      rw [get?_update_eq] at here
      obtain ⟨c', -, rfl⟩ := Option.map_eq_some_iff.mp here
      rw [if_pos rfl]
      rfl
    have passes := purge_passes obj (s.update cid { audit := some .fail }) cid imports
    have vacant : ∃ c, (purged (s.update cid { audit := some .fail }).candidates cid imports).get? cid =
        some c ∧ c.audit = .fail := by
      obtain ⟨c, here, -⟩ := held cid champion
      have written : (s.update cid { audit := some .fail }).candidates.get? cid = _ := get?_update_eq
      rw [here, Option.map_some] at written
      obtain ⟨c', row⟩ := passes.row written
      exact ⟨c', @purge_candidates obj _ _ _ ▸ row, passes.fail out row⟩
    by_cases hits : tainted (s.update cid { audit := some .fail }).candidates imports (some cid) = []
    · refine iff_of_false (fun held' => ?_) fun sound => sound.1 champion hits
      have stays : ((s.update cid { audit := some .fail }).purge obj cid imports).bestId = some cid := by
        rw [purge_bestId fun vacates => vacates.1 hits]
        · exact champion
        · intro id c best here
          cases champion.symm.trans best
          rw [withoutTainted_of_none hits] at here
          exact Bool.eq_false_of_not_eq_true fun hit => audit_of_dependents hit (out c here)
      obtain ⟨c, here, may⟩ := held' cid stays
      exact may.1.2.2.2 (passes.fail out here)
    · have vacates : Vacates (s.update cid { audit := some .fail }) imports (some cid) := by
        refine ⟨hits, fun id c best here => ?_⟩
        cases champion.symm.trans best
        exact (cascadeQuarantine_passes obj _ imports (some cid)).fail out
          (cascadeQuarantine_candidates ▸ here)
      rw [(purge_heads vacates).held_iff_heir, purge_candidates, champion]
      exact ⟨fun heir => ⟨fun _ => hits, fun _ => heir⟩, fun sound => sound.2 vacant⟩
  · rw [purge_held_iff (held.update_of_ne champion _)]
    exact (and_iff_right fun best => absurd best champion).symm

/-! ## What is settled -/

theorem crown_held_iff :
    Held obj (s.crown cid) ↔ ∃ c, s.candidates.get? cid = some c ∧ Eligible obj c := by
  constructor
  · exact fun held => held cid rfl
  · intro may id best
    cases best
    exact may

theorem crown_update_held_iff
    (here : s.candidates.get? cid = some c) :
    Held obj ((s.update cid fields).crown cid) ↔ Eligible obj (c.assign fields) := by
  refine held_iff_of_row (s := (s.update cid fields).crown cid) rfl ?_
  show (s.update cid fields).candidates.get? cid = _
  rw [get?_update_eq, here, Option.map_some, if_pos rfl]

theorem note_held_iff {how : How} {cid : CandidateId} {score : Option Score} :
    Held obj (s.note how cid score) ↔ Held obj s := held_congr rfl rfl

theorem lookahead_of_contends {bestId : Option CandidateId}
    (contends : s.Contends obj bestId fields = true) : fields.lookahead ≠ some .fail := by
  intro fail
  have tested := (Bool.and_eq_true_iff.mp (Bool.and_eq_true_iff.mp contends).1).2
  rw [fail] at tested
  split at tested <;> simp at tested

/-- A test that failed leaves nobody with the title who may not hold it. -/
def CascadeSound (obj : Objective) (s : Store) (cid : CandidateId) (fields : Fields)
    (imports : Text → Bool) : Prop :=
  let rows := (s.update cid fields).candidates
  (s.bestId = some cid → Vacates (s.update cid fields) imports (some cid)) ∧
    (Vacant (withoutTainted rows imports (some cid)) (tainted rows imports (some cid) ≠ []) s.bestId →
      Heir obj (withoutTainted rows imports (some cid)))

theorem cascade_held_iff (held : Held obj s) {cid : CandidateId}
    {imports : Text → Bool} (failed : fields.lookahead = some .fail) :
    Held obj ((s.update cid fields).cascadeQuarantine obj imports (some cid)) ↔
      CascadeSound obj s cid fields imports := by
  have passes := cascadeQuarantine_passes obj (s.update cid fields) imports (some cid)
  rw [CascadeSound]
  by_cases champion : s.bestId = some cid
  · obtain ⟨c, here, -⟩ := held cid champion
    have written : (s.update cid fields).candidates.get? cid = _ := get?_update_eq
    rw [here, Option.map_some, if_pos rfl] at written
    obtain ⟨c', row⟩ := passes.row written
    by_cases vacates : Vacates (s.update cid fields) imports (some cid)
    · have vacant := vacates.2 cid c' champion (@cascadeQuarantine_candidates obj _ _ _ ▸ row)
      rw [(cascadeQuarantine_heads vacates).held_iff_heir, cascadeQuarantine_candidates, champion]
      refine ⟨fun heir => ⟨fun _ => vacates, fun _ => heir⟩, fun sound => sound.2 ⟨c', ?_, vacant⟩⟩
      exact @cascadeQuarantine_candidates obj _ _ _ ▸ row
    · refine iff_of_false (fun held' => ?_) fun sound => vacates (sound.1 champion)
      -- the title stays with the candidate, whose test failed
      have may := (held_iff_of_row ((cascadeQuarantine_bestId vacates).trans champion) row).mp held'
      obtain ⟨hit, rows⟩ := passes.rows
      rw [rows] at row
      cases of_get?_disqualified row with
      | inl fail => exact may.1.2.2.2 fail
      | inr same =>
        cases written.symm.trans same.1
        refine may.1.2.2.1 ?_
        rw [Candidate.assign, failed]
        exact List.mem_cons_self
  · rw [passes.held_iff_vacant (held.update_of_ne champion fields)
      (m := tainted (s.update cid fields).candidates imports (some cid) ≠ []),
      cascadeQuarantine_candidates]
    · exact (and_iff_right fun best => absurd best champion).symm
    · exact fun none_ hits => cascadeQuarantine_heads (.of_none none_ hits)
    · intro none_ missed
      rw [cascadeQuarantine_bestId fun vacates => missed vacates.1]
      exact none_

/-- What is settled leaves nobody with the title who may not hold it: a candidate that takes it may hold
it, and what is written to the one that holds it suits it. -/
def SettleSound (obj : Objective) (s : Store) (bestId : Option CandidateId) (cid : CandidateId)
    (fields : Fields) (imports : Text → Bool) : Prop :=
  if s.Contends obj bestId fields = true then
    if obj.requireAudit then Suits obj s cid { fields with audit := some .pending }
    else ∃ c, s.candidates.get? cid = some c ∧ Eligible obj (c.assign fields)
  else if fields.lookahead = some .fail then CascadeSound obj s cid fields imports
  else Suits obj s cid fields

theorem settle_held_iff (held : Held obj s) {bestId : Option CandidateId} {cid : CandidateId}
    {imports : Text → Bool} :
    Held obj (s.settle obj bestId cid fields imports) ↔
      SettleSound obj s bestId cid fields imports := by
  rw [SettleSound]
  by_cases contends : s.Contends obj bestId fields = true
  · rw [if_pos contends]
    by_cases audited : obj.requireAudit = true
    · have same : s.settle obj bestId cid fields imports =
          (s.note .contended cid fields.score.join).update cid { fields with audit := some .pending } := by
        simp [settle, contends, audited, lookahead_of_contends contends]
      rw [same, if_pos audited, (note_held_iff.mpr held).update_iff]
      rfl
    · have same : s.settle obj bestId cid fields imports =
          ((s.note .earned cid fields.score.join).update cid fields).crown cid := by
        simp [settle, contends, audited, lookahead_of_contends contends]
      have row : ((s.note .earned cid fields.score.join).update cid fields).candidates.get? cid =
          (s.candidates.get? cid).map fun c => c.assign fields := by
        rw [get?_update_eq]
        simp only [if_pos]
        rfl
      rw [same, if_neg audited, crown_held_iff, row]
      simp only [Option.map_eq_some_iff]
      constructor
      · rintro ⟨_, ⟨c, here, is_⟩, may⟩
        exact ⟨c, here, is_ ▸ may⟩
      · rintro ⟨c, here, may⟩
        exact ⟨_, ⟨c, here, rfl⟩, may⟩
  · rw [if_neg contends]
    by_cases failed : fields.lookahead = some .fail
    · have same : s.settle obj bestId cid fields imports =
          (s.update cid fields).cascadeQuarantine obj imports (some cid) := by
        simp [settle, contends, failed]
      rw [same, if_pos failed]
      exact cascade_held_iff held failed
    · have same : s.settle obj bestId cid fields imports = s.update cid fields := by
        simp [settle, contends, failed]
      rw [same, if_neg failed]
      exact held.update_iff

/-- The end of an evaluation leaves nobody with the title who may not hold it. -/
def ConcludeSound (obj : Objective) (s : Store) (e : Evaluation) (fields : Fields)
    (imports : Text → Bool) : Prop :=
  if fields.lookahead = some .pending then Suits obj s e.candidate fields
  else SettleSound obj s e.bestId e.candidate fields imports

theorem conclude_held_iff (held : Held obj s) {e : Evaluation}
    {imports : Text → Bool} :
    Held obj (s.conclude obj e fields imports) ↔ ConcludeSound obj s e fields imports := by
  rw [conclude, ConcludeSound]
  split_ifs
  · exact (held_congr (s := s.update e.candidate fields) rfl rfl).trans held.update_iff
  · exact settle_held_iff held

/-! ## Scores that change -/

theorem takeTitle_bestId :
    (s.takeTitle (some (cid, c))).bestId = some cid := by
  rw [takeTitle]
  split_ifs with same
  · exact same
  · rfl

theorem not_mayHold_of_audit (needs : obj.requireAudit = true) (none_ : c.audit ≠ .pass) :
    MayHold obj c ≠ true := by
  simp [MayHold, needs, none_]

theorem recrown_held_iff :
    Held obj (s.recrown obj) ↔
      (∃ pair ∈ ranked obj s.candidates 200, MayHold obj pair.2 = true) ∨ Held obj s := by
  let champion := (ranked obj s.candidates 200).find? fun pair => MayHold obj pair.2
  have taken : Held obj (s.takeTitle champion) ↔
      (∃ pair ∈ ranked obj s.candidates 200, MayHold obj pair.2 = true) ∨ Held obj s := by
    cases found : champion with
    | none =>
      refine (or_iff_right ?_).symm
      rintro ⟨pair, mem, may⟩
      exact List.find?_eq_none.mp found pair mem may
    | some pair =>
      obtain ⟨cid, c⟩ := pair
      have mem := List.mem_of_find?_eq_some found
      have may : MayHold obj c = true :=
        List.find?_some (p := fun pair : CandidateId × Candidate => MayHold obj pair.2) found
      obtain ⟨here, is_⟩ := of_mem_ranked mem
      refine iff_of_true ?_ (.inl ⟨_, mem, may⟩)
      rw [held_iff_of_row takeTitle_bestId ((takeTitle_candidates s _).symm ▸ here)]
      exact ⟨is_, may⟩
  rw [recrown]
  split
  · next cid c found =>
    split_ifs with asks
    · obtain ⟨needs, -, none_⟩ := asks
      have here := (of_mem_ranked (List.mem_of_find?_eq_some found)).1
      rw [← taken]
      -- an audit is asked for of a candidate that does not hold the title, or may not
      constructor
      · intro held id best
        obtain ⟨c', here', may⟩ := held id best
        rw [get?_update_eq] at here'
        obtain ⟨c'', here'', rfl⟩ := Option.map_eq_some_iff.mp here'
        refine ⟨c'', here'', ?_⟩
        split_ifs at may
        · exact absurd may.2 (not_mayHold_of_audit needs (by simp [Candidate.assign]))
        · exact may
      · intro held
        refine held.update_iff.mpr fun best c' here' => ?_
        obtain ⟨c'', here'', may⟩ := held cid best
        rw [takeTitle_candidates, here] at here''
        obtain rfl := Option.some.inj here''
        exact absurd may.2 (not_mayHold_of_audit needs (by rw [none_]; decide))
    · exact taken
  · exact taken

/-! ## Steps -/

/-- The rows that are left when candidates are deleted. -/
def undeleted (s : Store) (ids : List CandidateId) : Candidates :=
  s.candidates.filter fun id c => ¬(id ∈ ids ∧ c.status ≠ .evaluating ∧ id ∉ s.retest.getD [])

/-- A step leaves nobody with the title who may not hold it. A candidate that takes it may hold it, what is
written to the one that holds it suits it, and a title that has to go to somebody goes to one that may
hold it. -/
def Sound (obj : Objective) (s : Store) : Event → Prop
  | .evaluated e .failed imports => ConcludeSound obj s e { status := some .error } imports
  | .evaluated e (.scored score) imports =>
    if obj.kind = .task then Suits obj s e.candidate (obj.fieldsOf score)
    else ConcludeSound obj s e (obj.fieldsOf score) imports
  | .evaluated e (.raised _) _ => s.bestId ≠ some e.candidate
  | .evaluated e .sandboxDown _ => s.bestId ≠ some e.candidate
  | .reviewed e imports => ∀ fields, e.scored = some fields → ConcludeSound obj s e fields imports
  | .settleLookahead cid verdict imports =>
    ∀ c, s.candidates.get? cid = some c → c.lookahead = .pending →
      SettleSound obj s s.bestId cid
        { status := some c.status, score := some c.score, lookahead := some verdict } imports
  | .finishShortTest test verdict imports =>
    ∀ v c, verdict = some v → v ≠ .error → s.candidates.get? test.candidate = some c →
      c.lookahead = .short → SettleSound obj s s.bestId test.candidate
        { status := some test.status, score := some test.score, lookahead := some v } imports
  | .audit cid true _ =>
    ∀ c, s.candidates.get? cid = some c →
      better c.score (s.bestScore s.bestId) obj.higherIsBetter = true →
        Eligible obj (c.assign { audit := some .pass })
  | .audit cid false imports => FailSound obj s cid imports
  | .judge cid score =>
    better (some score) (s.bestScore s.bestId) true = true →
      if obj.requireAudit then s.bestId ≠ some cid
      else ∀ c, s.candidates.get? cid = some c → Eligible obj (c.assign { score := some (some score) })
  | .demote cid imports => FamilySound obj s cid { audit := some .fail } imports
  | .retested verdict imports =>
    ∀ cid rest, s.retest = some (cid :: rest) → verdict ≠ .pass → verdict ≠ .error →
      FamilySound obj s cid { lookahead := some .fail } imports
  | .retireModules imports =>
    Vacant (withoutTainted s.candidates imports none) (tainted s.candidates imports none ≠ []) s.bestId →
      Heir obj (withoutTainted s.candidates imports none)
  | .rescore scores =>
    (∃ pair ∈ ranked obj (s.rescore scores).candidates 200, MayHold obj pair.2 = true) ∨
      ∀ cid, s.bestId = some cid → scores cid ≠ some none
  | .remarked score recrown =>
    ∀ cid rest new, s.remark = cid :: rest → score = some new →
      recrown = true ∧ (∃ pair ∈ ranked obj (s.update cid { score := some new }).candidates 200,
          MayHold obj pair.2 = true) ∨
        Suits obj s cid { score := some new }
  | .delete ids =>
    (∃ cid, s.bestId = some cid ∧ (s.undeleted ids).get? cid = none) → Heir obj (s.undeleted ids)
  | _ => True

/-- What is written that leaves a candidate one that may hold the title. -/
theorem Suits.of_keeps (held : Held obj s) {cid : CandidateId}
    (keeps : ∀ c, Eligible obj c → Eligible obj (c.assign fields)) : Suits obj s cid fields := by
  intro best c here
  exact keeps c ((held_iff_of_row best here).mp held)

theorem held_of_quiet (held : Held obj s) (best : s'.bestId = s.bestId)
    (candidates : s'.candidates = s.candidates) {sound : Prop} (is_ : sound) : Held obj s' ↔ sound :=
  iff_of_true ((held_congr best candidates).mpr held) is_

theorem insert_held (held : Held obj s) {cid : CandidateId} (new : s.candidates.get? cid = none)
    {code : Text} {ensemble : Bool} {members : List Member} :
    Held obj (s.insert cid code ensemble members) := by
  refine held.of_row rfl fun id c _ here may => ⟨c, ?_, may⟩
  have other : id ≠ cid := by
    rintro rfl
    rw [new] at here
    nomatch here
  rw [insert, Dict.get?_set_of_ne other]
  exact here

theorem evaluated_held_iff (held : Held obj s) {e : Evaluation} {outcome : Outcome}
    {imports : Text → Bool} :
    Held obj (s.evaluated obj e outcome imports) ↔ Sound obj s (.evaluated e outcome imports) := by
  have dropped : Held obj { s with evaluations := s.evaluations.erase e } :=
    (held_congr rfl rfl).mpr held
  cases outcome with
  | failed => exact conclude_held_iff dropped
  | scored score =>
    rw [evaluated, Sound]
    dsimp only
    split_ifs
    · exact (held_congr (s := s.update e.candidate (obj.fieldsOf score)) rfl rfl).trans held.update_iff
    · exact conclude_held_iff dropped
  | raised others =>
    rw [evaluated, Sound]
    have written : Held obj ({ s with evaluations := s.evaluations.erase e }.update e.candidate
        { status := some .error }) ↔ s.bestId ≠ some e.candidate := by
      rw [dropped.update_iff]
      constructor
      · intro suits best
        obtain ⟨c, here, -⟩ := held e.candidate best
        cases (suits best c here).1.1
      · exact fun other best => absurd best other
    split_ifs
    · exact written
    · rw [← written]
      -- the others that are marked are being evaluated, so that none of them may hold the title
      constructor
      · intro held' cid best
        obtain ⟨c, here, may⟩ := held' cid best
        rw [Dict.get?_map] at here
        obtain ⟨c', here', rfl⟩ := Option.map_eq_some_iff.mp here
        refine ⟨c', here', ?_⟩
        split_ifs at may
        · cases may.1.1
        · exact may
      · refine fun held' => held'.of_row rfl fun cid c _ here may => ⟨c, ?_, may⟩
        rw [Dict.get?_map, here, Option.map_some, if_neg]
        rw [may.1.1]
        exact fun both => by cases both.2
  | sandboxDown =>
    rw [evaluated, Sound]
    split_ifs
    · rw [dropped.update_iff]
      constructor
      · intro suits best
        obtain ⟨c, here, -⟩ := held e.candidate best
        cases (suits best c here).1.1
      · exact fun other best => absurd best other
    · constructor
      · intro held' best
        obtain ⟨c, here, -⟩ := held' e.candidate best
        exact (Dict.get?_pop_eq_some.mp here).2 rfl
      · intro other
        refine held.of_row rfl fun cid c best here may => ⟨c, ?_, may⟩
        refine Dict.get?_pop_eq_some.mpr ⟨here, ?_⟩
        rintro rfl
        exact other best

attribute [local grind =] Sound

theorem settleLookahead_held_iff (held : Held obj s) {cid : CandidateId} {verdict : Lookahead}
    {imports : Text → Bool} :
    Held obj (s.settleLookahead obj cid verdict imports) ↔
      Sound obj s (.settleLookahead cid verdict imports) := by
  have dropped : Held obj { s with tests := s.tests.erase cid } := (held_congr rfl rfl).mpr held
  rw [settleLookahead, Sound]
  split
  · next gone =>
    refine held_of_quiet held rfl rfl fun c here => ?_
    rw [gone] at here
    cases here
  · next c here =>
    split_ifs with answered
    · refine held_of_quiet held rfl rfl fun c' here' pending => ?_
      cases here.symm.trans here'
      exact absurd pending answered
    · rw [settle_held_iff dropped]
      constructor
      · intro sound c' here' _
        cases here.symm.trans here'
        exact sound
      · exact fun sound => sound c here (not_not.mp answered)

theorem finishShortTest_held_iff (held : Held obj s) {test : ShortTest} {verdict : Option Lookahead}
    {imports : Text → Bool} :
    Held obj (s.finishShortTest obj test verdict imports) ↔
      Sound obj s (.finishShortTest test verdict imports) := by
  have dropped : Held obj { s with shortTests := s.shortTests.erase test } :=
    (held_congr rfl rfl).mpr held
  unfold finishShortTest
  rw [Sound]
  dsimp only
  split
  · next v c here =>
    split_ifs with answered
    · refine held_of_quiet held rfl rfl fun v' c' is_ answers here' short => ?_
      cases is_
      cases here.symm.trans here'
      cases answered with
      | inl error => exact absurd error answers
      | inr other => exact absurd short other
    · rw [settle_held_iff dropped]
      rw [not_or, not_not] at answered
      constructor
      · intro sound v' c' is_ _ here' _
        cases is_
        exact sound
      · exact fun sound => sound v c rfl answered.1 here answered.2
  · next other =>
    exact held_of_quiet held rfl rfl fun v c is_ _ here => absurd here (other v c is_)

theorem audit_held_iff (held : Held obj s) {cid : CandidateId} {c : Candidate} {passed : Bool}
    {imports : Text → Bool} (here : s.candidates.get? cid = some c) :
    Held obj (s.audit obj cid c passed imports) ↔ Sound obj s (.audit cid passed imports) := by
  cases passed with
  | false => exact fail_held_iff held
  | true =>
    rw [audit, if_pos rfl, Sound]
    by_cases beats : better c.score (s.bestScore s.bestId) obj.higherIsBetter = true
    · rw [if_pos beats, crown_update_held_iff (s := s.note .earned cid c.score) here]
      constructor
      · intro may c' here' _
        cases here.symm.trans here'
        exact may
      · exact fun sound => sound c here beats
    · rw [if_neg beats]
      refine iff_of_true (held.update_iff.mpr (.of_keeps held fun c may => ?_)) fun c' here' better_ => ?_
      · exact ⟨⟨may.1.1, may.1.2.1, may.1.2.2.1, by rintro ⟨⟩⟩,
          Bool.and_eq_true_iff.mpr ⟨(Bool.and_eq_true_iff.mp may.2).1, rfl⟩⟩
      · cases here.symm.trans here'
        exact absurd better_ beats

theorem judge_held_iff (held : Held obj s) {cid : CandidateId} {score : Score}
    (here : (s.candidates.get? cid).isSome = true) :
    Held obj (s.judge obj cid score) ↔ Sound obj s (.judge cid score) := by
  obtain ⟨c, here⟩ := Option.isSome_iff_exists.mp here
  rw [judge, Sound]
  dsimp only
  by_cases beats : better (some score) (s.bestScore s.bestId) true = true
  · rw [if_pos beats, imp_iff_right beats]
    split_ifs with needs
    · rw [(note_held_iff.mpr held).update_iff]
      constructor
      · intro suits best
        exact not_mayHold_of_audit needs (by simp [Candidate.assign]) (suits best c here).2
      · exact fun other best => absurd best other
    · rw [crown_update_held_iff (s := s.note .earned cid (some score)) here]
      constructor
      · intro may c' here'
        cases here.symm.trans here'
        exact may
      · exact fun sound => sound c here
  · rw [if_neg beats]
    refine iff_of_true (held.update_iff.mpr (.of_keeps held fun c may => ?_)) fun better_ => absurd better_ beats
    exact ⟨⟨may.1.1, rfl, may.1.2.2.1, may.1.2.2.2⟩, may.2⟩

theorem demote_held_iff (held : Held obj s) {cid : CandidateId} {imports : Text → Bool} :
    Held obj (s.demote obj cid imports) ↔ Sound obj s (.demote cid imports) :=
  family_held_iff held

theorem retested_held_iff (held : Held obj s) {cid : CandidateId} {verdict : Lookahead}
    {imports : Text → Bool} :
    Held obj (s.retested obj cid verdict imports) ↔
      (verdict ≠ .pass → verdict ≠ .error → FamilySound obj s cid { lookahead := some .fail } imports) := by
  rw [retested]
  split_ifs with pass error
  · refine iff_of_true (held.update_iff.mpr (.of_keeps held fun c may => ?_)) fun other => absurd pass other
    refine ⟨⟨may.1.1, may.1.2.1, by simp [Candidate.assign], may.1.2.2.2⟩, ?_⟩
    exact Bool.and_eq_true_iff.mpr ⟨by simp [Tested, Candidate.assign], (Bool.and_eq_true_iff.mp may.2).2⟩
  · exact iff_of_true held fun _ other => absurd error other
  · rw [imp_iff_right pass, imp_iff_right error]
    exact family_held_iff held

theorem retireModules_held_iff (held : Held obj s) {imports : Text → Bool} :
    Held obj (s.cascadeQuarantine obj imports none) ↔ Sound obj s (.retireModules imports) := by
  rw [(cascadeQuarantine_passes obj s imports none).held_iff_vacant held
    (m := tainted s.candidates imports none ≠ []), cascadeQuarantine_candidates]
  · rfl
  · exact fun none_ hits => cascadeQuarantine_heads (.of_none none_ hits)
  · intro none_ missed
    rw [cascadeQuarantine_bestId fun vacates => missed vacates.1]
    exact none_

theorem delete_held_iff (held : Held obj s) {ids : List CandidateId} :
    Held obj (s.delete obj ids) ↔ Sound obj s (.delete ids) := by
  let t : Store := { s with candidates := s.undeleted ids }
  have unfolds : s.delete obj ids =
      if t.bestId.isSome ∧ t.best t.bestId = none then t.handOver obj else t := rfl
  rw [unfolds, Sound]
  split_ifs with gone
  · rw [handOver_heads.held_iff_heir, handOver_candidates]
    obtain ⟨some_, none_⟩ := gone
    obtain ⟨cid, best⟩ := Option.isSome_iff_exists.mp some_
    rw [best] at none_
    exact (imp_iff_right ⟨cid, best, none_⟩).symm
  · refine iff_of_true (held.of_row rfl fun cid c best here may => ⟨c, ?_, may⟩) ?_
    · rw [not_and] at gone
      obtain ⟨c', here'⟩ := Option.ne_none_iff_exists'.mp (gone (by rw [best]; rfl))
      have still : t.candidates.get? cid = some c' := by
        rw [best] at here'
        exact here'
      cases here.symm.trans (Dict.get?_filter_eq_some.mp still).1
      exact still
    · rintro ⟨cid, best, none_⟩
      refine absurd ⟨?_, ?_⟩ gone
      · rw [best]
        rfl
      · rw [best]
        exact none_

/-- With new scores, the title goes to one of the first that may hold it, or its holder keeps a score. -/
theorem rescore_held_iff (held : Held obj s) {scores : CandidateId → Option (Option Score)} :
    Held obj (s.rescore scores) ↔ ∀ cid, s.bestId = some cid → scores cid ≠ some none := by
  have row : ∀ {cid c}, s.candidates.get? cid = some c → c.status = .ok →
      (s.rescore scores).candidates.get? cid =
        some { c with score := (scores cid).getD c.score } := by
    intro cid c here status
    rw [rescore, Dict.get?_map, here, Option.map_some, if_pos status]
  constructor
  · intro held' cid best gone
    obtain ⟨c, here, may⟩ := held cid best
    have may' := (held_iff_of_row (s := s.rescore scores) best (row here may.1.1)).mp held'
    have scored := may'.1.2.1
    rw [gone] at scored
    nomatch scored
  · intro keeps
    refine held.of_row rfl fun cid c best here may => ⟨_, row here may.1.1, ?_⟩
    refine ⟨⟨may.1.1, ?_, may.1.2.2⟩, may.2⟩
    match scores cid, keeps cid best with
    | none, _ => exact may.1.2.1
    | some none, lost => exact absurd rfl lost
    | some (some score), _ => rfl

/-- Whoever holds the title was evaluated, and its test does not run: a restart leaves it alone. -/
theorem restart_held (held : Held obj s) (resumed : CandidateId → Bool) :
    Held obj (s.restart obj resumed) := by
  refine held.of_row rfl fun cid c _ here may => ⟨c, ?_, may⟩
  have done : c.status ≠ .evaluating := by
    rw [may.1.1]
    decide
  have tested : c.lookahead ≠ .pending := by
    intro pending
    exact may.1.2.2.1 (by rw [pending]; decide)
  simp only [restart, Dict.get?_map, here, Option.map_some, if_neg done, tested, false_and, if_false]

/-- An ensemble that takes the title was made of candidates that passed their tests. -/
theorem combine_held (held : Held obj s) {cid : CandidateId} (new : s.candidates.get? cid = none)
    {code : Text} {members : List (CandidateId × Candidate)} {score : Option Score} :
    Held obj (s.combine obj cid code members score) := by
  refine (settle_held_iff (insert_held held new)).mpr ?_
  have other : s.bestId ≠ some cid := by
    intro best
    obtain ⟨c, here, -⟩ := held cid best
    rw [new] at here
    cases here
  rw [SettleSound]
  split_ifs with contends needs failed
  · exact fun best => absurd best other
  · refine ⟨_, Dict.get?_set_self, ?_⟩
    have scored : score.isSome = true :=
      (Bool.and_eq_true_iff.mp (Bool.and_eq_true_iff.mp (Bool.and_eq_true_iff.mp contends).1).1).2
    refine ⟨⟨rfl, scored, by simp [Candidate.assign], by rintro ⟨⟩⟩, ?_⟩
    simp [MayHold, Tested, Candidate.assign, needs]
  · cases failed
  · exact fun best => absurd best other

theorem step_held_iff {ev : Event} (held : Held obj s) (taken : s.step obj ev = some s') :
    Held obj s' ↔ Sound obj s ev := by
  cases ev with
  | patch running | cancelRetest =>
    cases taken
    exact held_of_quiet held rfl rfl trivial
  | submit cid code members =>
    obtain ⟨guard, rfl⟩ := of_guard taken
    exact held_of_quiet (insert_held held guard.2) rfl rfl trivial
  | rerun cid =>
    rw [step] at taken
    split at taken
    · cases taken
    · obtain ⟨guard, rfl⟩ := of_guard taken
      exact held_of_quiet (held.update_of_ne guard.2.2.2 _) rfl rfl trivial
  | evaluated e outcome imports =>
    obtain ⟨-, rfl⟩ := of_guard taken
    exact evaluated_held_iff held
  | reviewed e imports =>
    obtain ⟨-, same⟩ := Option.ite_none_right_eq_some.mp taken
    obtain ⟨fields, scored, rfl⟩ := Option.map_eq_some_iff.mp same
    have dropped : Held obj { s with evaluations := s.evaluations.erase e } :=
      (held_congr rfl rfl).mpr held
    refine (conclude_held_iff dropped).trans ?_
    constructor
    · intro sound fields' scored'
      cases scored.symm.trans scored'
      exact sound
    · exact fun sound => sound fields scored
  | settleLookahead cid verdict imports =>
    obtain ⟨-, rfl⟩ := of_guard taken
    exact settleLookahead_held_iff held
  | beginShortTest cid =>
    rw [step] at taken
    split at taken
    · cases taken
    · obtain ⟨-, rfl⟩ := of_guard taken
      exact held_of_quiet held rfl rfl trivial
  | finishShortTest test verdict imports =>
    obtain ⟨-, rfl⟩ := of_guard taken
    exact finishShortTest_held_iff held
  | audit cid passed imports =>
    obtain ⟨c, here, rfl⟩ := Option.map_eq_some_iff.mp taken
    exact audit_held_iff held here
  | runAudit cid =>
    rw [step] at taken
    split at taken
    · cases taken
    · next c here =>
      obtain ⟨guard, rfl⟩ := of_guard taken
      refine iff_of_true (held.update_iff.mpr fun best c' here' => ?_) trivial
      cases here.symm.trans here'
      -- the audit was not passed, so that none is needed for the title
      have may := (held_iff_of_row best here).mp held
      obtain ⟨tested, audited⟩ := Bool.and_eq_true_iff.mp may.2
      refine ⟨⟨may.1.1, may.1.2.1, may.1.2.2.1, by rintro ⟨⟩⟩, Bool.and_eq_true_iff.mpr ⟨tested, ?_⟩⟩
      cases Bool.or_eq_true_iff.mp audited with
      | inl pass => exact absurd (by rw [of_decide_eq_true pass]; decide) guard.1
      | inr free => exact Bool.or_eq_true_iff.mpr (.inr free)
  | judge cid score =>
    obtain ⟨guard, rfl⟩ := of_guard taken
    exact judge_held_iff held guard.2
  | demote cid imports =>
    obtain ⟨-, rfl⟩ := of_guard taken
    exact demote_held_iff held
  | retireModules imports =>
    cases taken
    exact retireModules_held_iff held
  | startRetest top | startRemark =>
    obtain ⟨-, rfl⟩ := of_guard taken
    exact held_of_quiet held rfl rfl trivial
  | retested verdict imports =>
    rw [step] at taken
    split at taken
    · next cid rest waiting =>
      obtain ⟨-, rfl⟩ := of_guard taken
      have waits : Held obj { s with retest := if rest = [] then none else some rest } :=
        (held_congr rfl rfl).mpr held
      rw [retested_held_iff waits]
      constructor
      · intro sound cid' rest' waiting'
        obtain ⟨rfl, -⟩ := List.cons.inj (Option.some.inj (waiting.symm.trans waiting'))
        exact sound
      · exact fun sound => sound cid rest waiting
    · cases taken
  | rescore scores =>
    obtain ⟨-, rfl⟩ := of_guard taken
    exact recrown_held_iff.trans (or_congr_right (rescore_held_iff held))
  | remarked score recrown =>
    rw [step] at taken
    split at taken
    · cases taken
    · next cid rest waiting =>
      cases taken
      have waits : Held obj { s with remark := rest } := (held_congr rfl rfl).mpr held
      cases score with
      | none =>
        refine iff_of_true ?_ fun _ _ _ _ is_ => by cases is_
        dsimp only
        split_ifs
        · exact recrown_held_iff.mpr (.inr waits)
        · exact waits
      | some new =>
        have marked : Held obj ({ s with remark := rest }.update cid { score := some new }) ↔
            Suits obj s cid { score := some new } := waits.update_iff
        have names : Sound obj s (.remarked (some new) recrown) ↔
            recrown = true ∧ (∃ pair ∈ ranked obj (s.update cid { score := some new }).candidates 200,
              MayHold obj pair.2 = true) ∨ Suits obj s cid { score := some new } := by
          constructor
          · exact fun sound => sound cid rest new waiting rfl
          · intro sound cid' rest' new' waiting' is_
            obtain ⟨rfl, -⟩ := List.cons.inj (waiting.symm.trans waiting')
            cases is_
            exact sound
        rw [names]
        dsimp only
        split_ifs with again
        · rw [recrown_held_iff, marked]
          exact or_congr_left (and_iff_right again).symm
        · rw [marked]
          exact (or_iff_right fun both => again both.1).symm
  | delete ids =>
    cases taken
    exact delete_held_iff held
  | combine cid code ids score =>
    obtain ⟨guard, rfl⟩ := of_guard taken
    exact iff_of_true (combine_held held guard.2.1) trivial
  | restart resumed =>
    cases taken
    exact iff_of_true (restart_held held resumed) trivial

open Standing (auditedRate)

/-- A script passes its audit and takes the title. A worse one is audited, or asked to be, and the operator
disqualifies the first one. -/
def demotion (audited : Bool) : List Event :=
  [.submit "best".toList "one".toList [],
    .evaluated ⟨"best".toList, none, false, none⟩ (.scored (some 2)) fun _ => false,
    .audit "best".toList true fun _ => false,
    .submit "next".toList "two".toList [],
    .evaluated ⟨"next".toList, some "best".toList, false, none⟩ (.scored (some 1)) fun _ => false,
    if audited then .audit "next".toList true fun _ => false else .runAudit "next".toList,
    .demote "best".toList fun _ => false]

/-- The worse one holds the title. -/
def demoted (answer : Audit) : Store :=
  { opened with
    candidates := (Dict.empty.set "best".toList { reportedRow 1 "one".toList 2 with audit := .fail }).set
      "next".toList { reportedRow 2 "two".toList 1 with audit := answer }
    bestId := some "next".toList
    seqHwm := 2
    log := [⟨.handed, "next".toList, false, some 1, none⟩, ⟨.earned, "best".toList, false, some 2, none⟩,
      ⟨.contended, "best".toList, false, some 2, none⟩] }

theorem demotion_audited : (demotion true).foldlM (step auditedRate) opened = some (demoted .pass) := by
  with_unfolding_all rfl

theorem demotion_asked : (demotion false).foldlM (step auditedRate) opened = some (demoted .pending) := by
  with_unfolding_all rfl

end Store

end FreeSwarm.Objectives
