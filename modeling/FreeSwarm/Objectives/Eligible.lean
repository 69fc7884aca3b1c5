import FreeSwarm.Foundation.Ranking
import FreeSwarm.Objectives.Title

/-!
# Who may hold the title

A candidate may hold the title that is ranked, passed the look-ahead test where the objective makes one,
and passed an audit where it asks for one. A title that is handed on goes to the first of the ranked
candidates, whether it may hold it or not. What is disqualified after that makes no difference: the
candidate either goes as well, or is still the first of the ranked ones.
-/

namespace FreeSwarm.Objectives

open FreeSwarm.Foundation

def Eligible (obj : Objective) (c : Candidate) : Prop := c.Ranked ∧ Store.MayHold obj c = true

instance Eligible.decidable (obj : Objective) (c : Candidate) : Decidable (Eligible obj c) :=
  inferInstanceAs (Decidable (_ ∧ _))

/-! ## The leaderboard is an order -/

theorem better_trans {a b c : Option Score} {higher : Bool} (first : better a b higher = true)
    (second : better b c higher = true) : better a c higher = true := by
  cases a with
  | none => nomatch first
  | some a =>
    cases b with
    | none => nomatch second
    | some b =>
      cases c with
      | none => rfl
      | some c =>
        cases higher with
        | true =>
          exact decide_eq_true ((of_decide_eq_true second : c < b).trans (of_decide_eq_true first : b < a))
        | false =>
          exact decide_eq_true ((of_decide_eq_true first : a < b).trans (of_decide_eq_true second : b < c))

theorem better_or_eq (a b : Option Score) (higher : Bool) :
    better a b higher = true ∨ a = b ∨ better b a higher = true := by
  cases a with
  | none =>
    cases b with
    | none => exact .inr (.inl rfl)
    | some b => exact .inr (.inr rfl)
  | some a =>
    cases b with
    | none => exact .inl rfl
    | some b =>
      cases higher with
      | true =>
        obtain less | same | more := lt_trichotomy b a
        · exact .inl (decide_eq_true less)
        · exact .inr (.inl (congrArg some same.symm))
        · exact .inr (.inr (decide_eq_true more))
      | false =>
        obtain less | same | more := lt_trichotomy a b
        · exact .inl (decide_eq_true less)
        · exact .inr (.inl (congrArg some same))
        · exact .inr (.inr (decide_eq_true more))

instance Outranks.total (higher : Bool) : Std.Total (Outranks higher) where
  total p q := by
    obtain above | same | below := better_or_eq p.2.score q.2.score higher
    · exact .inl (.inl above)
    · cases Nat.le_total p.2.seq q.2.seq with
      | inl earlier => exact .inl (.inr ⟨same, earlier⟩)
      | inr later => exact .inr (.inr ⟨same.symm, later⟩)
    · exact .inr (.inl below)

instance Outranks.trans (higher : Bool) : IsTrans (CandidateId × Candidate) (Outranks higher) where
  trans p q t := by
    rintro (first | ⟨same, earlier⟩) (second | ⟨same', earlier'⟩)
    · exact .inl (better_trans first second)
    · exact .inl (same' ▸ first)
    · exact .inl (same ▸ second)
    · exact .inr ⟨same.trans same', earlier.trans earlier'⟩

namespace Store

variable {obj : Objective} {s s' s'' : Store} {rows : Candidates}

/-! ## Rows that are disqualified -/

def disqualified (rows : Candidates) (hit : CandidateId → Candidate → Bool) : Candidates :=
  rows.map fun id c => if hit id c then { c with audit := .fail } else c

variable {hit : CandidateId → Candidate → Bool} {imports : Text → Bool} {origin : Option CandidateId}
  {cid : CandidateId}

theorem get?_disqualified :
    (disqualified rows hit).get? cid = (rows.get? cid).map fun c =>
      if hit cid c then { c with audit := .fail } else c := by
  rw [disqualified, Dict.get?_map]

theorem disqualified_of_forall_not
    (missed : ∀ cid c, rows.get? cid = some c → hit cid c = false) : disqualified rows hit = rows := by
  cases rows with
  | mk entries nodup =>
    have same : entries.map (fun pair => (pair.1, if hit pair.1 pair.2 then
        { pair.2 with audit := .fail } else pair.2)) = entries := by
      refine (List.map_congr_left fun pair mem => ?_).trans (List.map_id _)
      rw [missed pair.1 pair.2 (Dict.mem_entries_iff.mp mem), if_neg Bool.false_ne_true]
      rfl
    simp only [disqualified, Dict.map, same]

theorem disqualified_disqualified (rows : Candidates) (hit hit' : CandidateId → Candidate → Bool) :
    ∃ both, disqualified (disqualified rows hit) hit' = disqualified rows both := by
  refine ⟨fun id c => hit id c || hit' id c, ?_⟩
  simp only [disqualified, Dict.map, List.map_map, Dict.mk.injEq]
  refine List.map_congr_left fun pair _ => ?_
  by_cases first : hit pair.1 pair.2 = true
  · simp [first]
  · simp [first]

theorem filter_ranked_disqualified (hit : CandidateId → Candidate → Bool) :
    ((disqualified rows hit).entries.filter fun pair => pair.2.Ranked) =
      (rows.entries.filter fun pair => pair.2.Ranked).filter fun pair => !hit pair.1 pair.2 := by
  show (rows.entries.map fun pair => (pair.1, if hit pair.1 pair.2 then
    { pair.2 with audit := .fail } else pair.2)).filter (fun pair => pair.2.Ranked) = _
  rw [List.filter_filter]
  induction rows.entries with
  | nil => rfl
  | cons pair rest ih =>
    rw [List.map_cons, List.filter_cons, List.filter_cons, ih]
    by_cases hits : hit pair.1 pair.2 = true
    · simp [hits, Candidate.Ranked]
    · simp [hits]

/-! ## The heir -/

/-- The first of the ranked candidates, to whom a title is handed on. -/
def heir (obj : Objective) (rows : Candidates) : Option CandidateId :=
  (ranked obj rows 1).head?.map Prod.fst

/-- The first of the ranked candidates may hold the title, if there is one. -/
def Heir (obj : Objective) (rows : Candidates) : Prop :=
  ∀ pair ∈ ranked obj rows 1, MayHold obj pair.2 = true

instance Heir.decidable (obj : Objective) (rows : Candidates) : Decidable (Heir obj rows) :=
  inferInstanceAs (Decidable (∀ pair ∈ _, _))

theorem heir_eq_some (is_ : heir obj rows = some cid) :
    ∃ c, ranked obj rows 1 = [(cid, c)] ∧ rows.get? cid = some c ∧ c.Ranked := by
  rw [heir] at is_
  have short : (ranked obj rows 1).length ≤ 1 := List.length_take_le _ _
  match list : ranked obj rows 1 with
  | [] =>
    rw [list] at is_
    nomatch is_
  | [(id, c)] =>
    rw [list] at is_
    cases is_
    exact ⟨c, rfl, of_mem_ranked (list ▸ List.mem_cons_self : (id, c) ∈ ranked obj rows 1)⟩
  | _ :: _ :: _ =>
    rw [list] at short
    simp at short

theorem heir_eq_none (none_ : heir obj rows = none) : ranked obj rows 1 = [] :=
  List.head?_eq_none_iff.mp (Option.map_eq_none_iff.mp none_)

theorem ranked_disqualified
    (missed : ∀ pair ∈ ranked obj rows 1, hit pair.1 pair.2 = false) :
    ranked obj (disqualified rows hit) 1 = ranked obj rows 1 := by
  rw [ranked, filter_ranked_disqualified]
  exact insertionSort_filter_take_one fun pair mem => by rw [missed pair mem]; rfl

/-! ## Whoever holds the title -/

/-- Nobody holds the title, or a candidate that is there and may hold it. -/
def Held (obj : Objective) (s : Store) : Prop :=
  ∀ cid, s.bestId = some cid → ∃ c, s.candidates.get? cid = some c ∧ Eligible obj c

theorem held_congr (best : s'.bestId = s.bestId) (candidates : s'.candidates = s.candidates) :
    Held obj s' ↔ Held obj s := by
  rw [Held, best, candidates, Held]

theorem Held.of_row (held : Held obj s) (same : s'.bestId = s.bestId)
    (row : ∀ cid c, s.bestId = some cid → s.candidates.get? cid = some c → Eligible obj c →
      ∃ c', s'.candidates.get? cid = some c' ∧ Eligible obj c') : Held obj s' := by
  intro cid best
  rw [same] at best
  obtain ⟨c, here, may⟩ := held cid best
  exact row cid c best here may

variable {c : Candidate}

theorem held_iff_of_row (best : s.bestId = some cid)
    (here : s.candidates.get? cid = some c) : Held obj s ↔ Eligible obj c := by
  constructor
  · intro held
    obtain ⟨c', here', may⟩ := held cid best
    rwa [Option.some.inj (here.symm.trans here')]
  · intro may id best'
    cases best.symm.trans best'
    exact ⟨c, here, may⟩

theorem held_of_none (none_ : s.bestId = none) : Held obj s := by
  intro cid best
  rw [none_] at best
  nomatch best

theorem get?_update_eq {cid id : CandidateId} {fields : Fields} :
    (s.update cid fields).candidates.get? id =
      (s.candidates.get? id).map fun c => if id = cid then c.assign fields else c := by
  rw [update, Dict.get?_map]

/-- What is written to the row of the candidate that holds the title leaves it one that may hold it. -/
def Suits (obj : Objective) (s : Store) (cid : CandidateId) (fields : Fields) : Prop :=
  s.bestId = some cid → ∀ c, s.candidates.get? cid = some c → Eligible obj (c.assign fields)

/-- What is written to a row is written to the one of the holder, or to another one. -/
theorem Held.update_iff (held : Held obj s) {cid : CandidateId} {fields : Fields} :
    Held obj (s.update cid fields) ↔ Suits obj s cid fields := by
  constructor
  · intro held' best c here
    refine (held_iff_of_row (s := s.update cid fields) best ?_).mp held'
    rw [get?_update_eq, here, Option.map_some, if_pos rfl]
  · intro suits
    refine held.of_row rfl fun id c best here may => ?_
    rw [get?_update_eq, here, Option.map_some]
    refine ⟨_, rfl, ?_⟩
    split_ifs with same
    · subst same
      exact suits best c here
    · exact may

theorem Held.update_of_ne (held : Held obj s) {cid : CandidateId} (other : s.bestId ≠ some cid)
    (fields : Fields) : Held obj (s.update cid fields) :=
  held.update_iff.mpr fun best => absurd best other

def Heads (obj : Objective) (s : Store) : Prop := s.bestId = heir obj s.candidates

theorem Heads.held_iff_heir (heads : Heads obj s) : Held obj s ↔ Heir obj s.candidates := by
  rw [Heads] at heads
  cases is_ : heir obj s.candidates with
  | none =>
    rw [is_] at heads
    rw [Heir, heir_eq_none is_]
    exact iff_of_true (held_of_none heads) fun _ mem => absurd mem List.not_mem_nil
  | some cid =>
    rw [is_] at heads
    obtain ⟨c, list, here, ranked_⟩ := heir_eq_some is_
    rw [held_iff_of_row heads here, Heir, list, List.forall_mem_singleton, Eligible]
    exact and_iff_right ranked_

theorem handOver_heads : Heads obj (s.handOver obj) := by
  rw [Heads, handOver_candidates, heir, handOver]
  split
  · next rows => rw [rows]; rfl
  · next cid c rest rows => rw [rows]; rfl

/-! ## A title that passes on -/

/-- Candidates are disqualified. The title stays where it is, with the row of its holder, or goes to the
heir because the holder is disqualified. -/
structure Passes (obj : Objective) (s s' : Store) : Prop where
  rows : ∃ hit, s'.candidates = disqualified s.candidates hit
  title : (s'.bestId = s.bestId ∧ ∀ cid c, s.bestId = some cid → s.candidates.get? cid = some c →
      s'.candidates.get? cid = some c) ∨
    Heads obj s' ∧ ∀ cid c, s.bestId = some cid → s'.candidates.get? cid = some c → c.audit = .fail

theorem of_get?_disqualified
    (here : (disqualified rows hit).get? cid = some c) :
    c.audit = .fail ∨ rows.get? cid = some c ∧ hit cid c = false := by
  rw [get?_disqualified] at here
  obtain ⟨c', here', rfl⟩ := Option.map_eq_some_iff.mp here
  split_ifs with hits
  · exact .inl rfl
  · exact .inr ⟨here', Bool.eq_false_of_not_eq_true hits⟩

theorem Passes.row (passes : Passes obj s s') {cid : CandidateId}
    (here : s.candidates.get? cid = some c) : ∃ c', s'.candidates.get? cid = some c' := by
  obtain ⟨hit, rows⟩ := passes.rows
  rw [rows, get?_disqualified, here, Option.map_some]
  exact ⟨_, rfl⟩

theorem Passes.fail (passes : Passes obj s s') {cid : CandidateId}
    (out : ∀ c, s.candidates.get? cid = some c → c.audit = .fail) {c : Candidate}
    (here : s'.candidates.get? cid = some c) : c.audit = .fail := by
  obtain ⟨hit, rows⟩ := passes.rows
  rw [rows] at here
  cases of_get?_disqualified here with
  | inl fail => exact fail
  | inr same => exact out c same.1

theorem Passes.heads (passes : Passes obj s s') (heads : Heads obj s) : Heads obj s' := by
  obtain ⟨hit, rows⟩ := passes.rows
  obtain ⟨same, stays⟩ | ⟨heads', -⟩ := passes.title
  · have missed : ∀ pair ∈ ranked obj s.candidates 1, hit pair.1 pair.2 = false := by
      intro pair mem
      rw [Heads] at heads
      cases is_ : heir obj s.candidates with
      | none =>
        rw [heir_eq_none is_] at mem
        nomatch mem
      | some cid =>
        obtain ⟨c, list, here, ranked_⟩ := heir_eq_some is_
        rw [list] at mem
        obtain rfl := List.mem_singleton.mp mem
        have still := stays cid c (heads.trans is_) here
        rw [rows] at still
        cases of_get?_disqualified still with
        | inl fail => exact absurd fail ranked_.2.2.2
        | inr same => exact same.2
    rw [Heads, same, rows, heir, ranked_disqualified missed]
    exact heads
  · exact heads'

theorem Passes.trans (first : Passes obj s s') (second : Passes obj s' s'') : Passes obj s s'' where
  rows := by
    obtain ⟨hit, rows⟩ := first.rows
    obtain ⟨hit', rows'⟩ := second.rows
    obtain ⟨both, same⟩ := disqualified_disqualified s.candidates hit hit'
    exact ⟨both, by rw [rows', rows, same]⟩
  title := by
    obtain ⟨same, stays⟩ | ⟨heads, vacated⟩ := first.title
    · obtain ⟨same', stays'⟩ | ⟨heads', vacated'⟩ := second.title
      · refine .inl ⟨same'.trans same, fun cid c best here => ?_⟩
        exact stays' cid c (same.trans best) (stays cid c best here)
      · exact .inr ⟨heads', fun cid c best => vacated' cid c (same.trans best)⟩
    · refine .inr ⟨second.heads heads, fun cid c best => second.fail fun c => ?_⟩
      exact vacated cid c best

/-- Somebody has to be found for the title: its holder is disqualified, or there is none and it is not
left at that. -/
def Vacant (rows : Candidates) (moved : Prop) : Option CandidateId → Prop
  | none => moved
  | some cid => ∃ c, rows.get? cid = some c ∧ c.audit = .fail

instance Vacant.decidable (rows : Candidates) (moved : Prop) [Decidable moved] :
    DecidablePred (Vacant rows moved)
  | none => inferInstanceAs (Decidable moved)
  | some cid =>
    decidable_of_iff (((rows.get? cid).any fun c => c.audit = .fail) = true) (by
      rw [Vacant, Option.any_eq_true]
      simp only [decide_eq_true_iff])

/-- Whoever holds a title that passes on may hold it, if the heir may who is looked for. -/
theorem Passes.held_iff_vacant (passes : Passes obj s s') (held : Held obj s) {m : Prop}
    (moves : s.bestId = none → m → Heads obj s')
    (rests : s.bestId = none → ¬m → s'.bestId = none) :
    Held obj s' ↔ (Vacant s'.candidates m s.bestId → Heir obj s'.candidates) := by
  cases best : s.bestId with
  | none =>
    rw [Vacant]
    by_cases moved_ : m
    · rw [(moves best moved_).held_iff_heir]
      exact (imp_iff_right moved_).symm
    · exact iff_of_true (held_of_none (rests best moved_)) fun moved' => absurd moved' moved_
  | some cid =>
    obtain ⟨c, here, may⟩ := held cid best
    rw [Vacant]
    obtain ⟨same, stays⟩ | ⟨heads, vacated⟩ := passes.title
    · have still := stays cid c best here
      refine iff_of_true ((held_iff_of_row (same.trans best) still).mpr may) ?_
      rintro ⟨c', here', fail⟩
      cases still.symm.trans here'
      exact absurd fail may.1.2.2.2
    · have vacant : ∃ c, s'.candidates.get? cid = some c ∧ c.audit = .fail := by
        obtain ⟨c', row⟩ := passes.row here
        exact ⟨c', row, vacated cid c' best row⟩
      rw [heads.held_iff_heir]
      exact (imp_iff_right vacant).symm

/-! ## What goes with a candidate -/

def dependents (rows : Candidates) (ids : List CandidateId) (seqs : List Nat) :
    CandidateId → Candidate → Bool :=
  fun _ c => Dependent ids
    (seqs ++ (rows.entries.filter fun pair => pair.1 ∈ ids).map fun pair => pair.2.seq) c

/-- The rows, of which those are disqualified that are made of some others. -/
def withoutDependents (rows : Candidates) (ids : List CandidateId) (seqs : List Nat) : Candidates :=
  disqualified rows (dependents rows ids seqs)

theorem audit_of_dependents {ids : List CandidateId} {seqs : List Nat} {cid : CandidateId}
    (hit : dependents rows ids seqs cid c = true) : c.audit ≠ .fail :=
  of_decide_eq_true (Bool.and_eq_true_iff.mp hit).1

theorem best_mem_hits :
    (s.bestId.any fun best =>
        best ∈ (s.candidates.entries.filter fun pair => hit pair.1 pair.2).map Prod.fst) = true ↔
      ∃ cid c, s.bestId = some cid ∧ s.candidates.get? cid = some c ∧ hit cid c = true := by
  rw [Option.any_eq_true]
  constructor
  · rintro ⟨cid, best, mem⟩
    obtain ⟨⟨id, c⟩, listed, rfl⟩ := List.mem_map.mp (of_decide_eq_true mem)
    obtain ⟨here, is_⟩ := List.mem_filter.mp listed
    exact ⟨id, c, best, Dict.mem_entries_iff.mp here, is_⟩
  · rintro ⟨cid, c, best, here, is_⟩
    refine ⟨cid, best, decide_eq_true (List.mem_map.mpr ⟨(cid, c), ?_, rfl⟩)⟩
    exact List.mem_filter.mpr ⟨Dict.mem_entries_iff.mpr here, is_⟩

/-- How `disqualify_dependents` ends: with a title that is handed on, or with the one there was. -/
theorem disqualifyDependents_cases (obj : Objective) (s : Store) (ids : List CandidateId)
    (seqs : List Nat) :
    (∃ cid c, s.bestId = some cid ∧ s.candidates.get? cid = some c ∧
        dependents s.candidates ids seqs cid c = true) ∧
      s.disqualifyDependents obj ids seqs =
        { s with candidates := withoutDependents s.candidates ids seqs }.handOver obj ∨
    (∀ cid c, s.bestId = some cid → s.candidates.get? cid = some c →
        dependents s.candidates ids seqs cid c = false) ∧
      s.disqualifyDependents obj ids seqs =
        { s with candidates := withoutDependents s.candidates ids seqs } := by
  let hit := dependents s.candidates ids seqs
  have unfolds : s.disqualifyDependents obj ids seqs =
      if (s.candidates.entries.filter fun pair => hit pair.1 pair.2) = [] then s
      else if (s.bestId.any fun best => best ∈ (s.candidates.entries.filter fun pair =>
          hit pair.1 pair.2).map Prod.fst) = true then (s.disqualify hit).handOver obj
      else s.disqualify hit := rfl
  by_cases hits : ∃ cid c, s.bestId = some cid ∧ s.candidates.get? cid = some c ∧ hit cid c = true
  · refine .inl ⟨hits, ?_⟩
    have handed := best_mem_hits.mpr hits
    rw [unfolds, if_neg, if_pos handed]
    · rfl
    · intro none_
      rw [none_] at handed
      simp at handed
  · refine .inr ⟨fun cid c best here => ?_, ?_⟩
    · exact Bool.eq_false_of_not_eq_true fun is_ => hits ⟨cid, c, best, here, is_⟩
    rw [unfolds, if_neg (mt best_mem_hits.mp hits)]
    split_ifs with none_
    · rw [withoutDependents, disqualified_of_forall_not]
      intro cid c here
      have missed := List.filter_eq_nil_iff.mp none_ (cid, c) (Dict.mem_entries_iff.mpr here)
      exact Bool.eq_false_of_not_eq_true missed
    · rfl

@[simp]
theorem disqualifyDependents_candidates {ids : List CandidateId} {seqs : List Nat} :
    (s.disqualifyDependents obj ids seqs).candidates = withoutDependents s.candidates ids seqs := by
  obtain ⟨-, same⟩ | ⟨-, same⟩ := disqualifyDependents_cases obj s ids seqs
  · rw [same, handOver_candidates]
  · rw [same]

theorem disqualifyDependents_passes (obj : Objective) (s : Store) (ids : List CandidateId)
    (seqs : List Nat) : Passes obj s (s.disqualifyDependents obj ids seqs) where
  rows := ⟨_, disqualifyDependents_candidates⟩
  title := by
    obtain ⟨hits, same⟩ | ⟨missed, same⟩ := disqualifyDependents_cases obj s ids seqs
    · obtain ⟨cid, c, best, here, hit⟩ := hits
      rw [same]
      refine .inr ⟨handOver_heads, fun cid' c' best' here' => ?_⟩
      cases best.symm.trans best'
      rw [handOver_candidates, withoutDependents, get?_disqualified, here, Option.map_some, if_pos hit] at here'
      rw [← Option.some.inj here']
    · rw [same]
      refine .inl ⟨rfl, fun cid c best here => ?_⟩
      rw [withoutDependents, get?_disqualified, here, Option.map_some, missed cid c best here,
        if_neg Bool.false_ne_true]

/-! ## What goes with a module -/

/-- The candidates that are built on modules that are quarantined. -/
def tainted (rows : Candidates) (imports : Text → Bool) (origin : Option CandidateId) :
    List (CandidateId × Candidate) :=
  rows.entries.filter fun pair => Tainted imports origin pair.1 pair.2

/-- The rows, of which those are disqualified that are built on such modules, or made of what is. -/
def withoutTainted (rows : Candidates) (imports : Text → Bool) (origin : Option CandidateId) :
    Candidates :=
  withoutDependents (disqualified rows (Tainted imports origin)) []
    ((tainted rows imports origin).map fun pair => pair.2.seq)

/-- A quarantine takes candidates away, and nobody is left that holds the title. -/
def Vacates (s : Store) (imports : Text → Bool) (origin : Option CandidateId) : Prop :=
  tainted s.candidates imports origin ≠ [] ∧ ∀ cid c, s.bestId = some cid →
    (withoutTainted s.candidates imports origin).get? cid = some c → c.audit = .fail

theorem withoutTainted_of_none
    (none_ : tainted rows imports origin = []) : withoutTainted rows imports origin = rows := by
  have first : disqualified rows (Tainted imports origin) = rows := by
    refine disqualified_of_forall_not fun cid c here => ?_
    have missed := List.filter_eq_nil_iff.mp none_ (cid, c) (Dict.mem_entries_iff.mpr here)
    exact Bool.eq_false_of_not_eq_true missed
  rw [withoutTainted, none_, first, withoutDependents, disqualified_of_forall_not]
  intro cid c _
  simp [dependents, Dependent]

theorem cascadeQuarantine_cases (obj : Objective) (s : Store) (imports : Text → Bool)
    (origin : Option CandidateId) :
    (s.cascadeQuarantine obj imports origin).candidates = withoutTainted s.candidates imports origin ∧
      (Vacates s imports origin ∧ Heads obj (s.cascadeQuarantine obj imports origin) ∨
        ¬Vacates s imports origin ∧ (s.cascadeQuarantine obj imports origin).bestId = s.bestId) := by
  by_cases none_ : tainted s.candidates imports origin = []
  · have same : s.cascadeQuarantine obj imports origin = s := if_pos none_
    rw [same, withoutTainted_of_none none_]
    exact ⟨rfl, .inr ⟨fun vacates => vacates.1 none_, rfl⟩⟩
  let t := (s.disqualify (Tainted imports origin)).disqualifyDependents obj []
    ((tainted s.candidates imports origin).map fun pair => pair.2.seq)
  have rows : t.candidates = withoutTainted s.candidates imports origin := disqualifyDependents_candidates
  have passes : Passes obj (s.disqualify (Tainted imports origin)) t :=
    disqualifyDependents_passes obj _ _ _
  -- the title is with a candidate that is not disqualified, or it is handed on
  by_cases lasting : ∃ c, t.best t.bestId = some c ∧ c.audit ≠ .fail
  · obtain ⟨c, best, lasts⟩ := lasting
    have same : s.cascadeQuarantine obj imports origin = t := by
      refine (if_neg none_).trans ?_
      split
      · next missing => cases missing.symm.trans best
      · next c' there =>
        cases there.symm.trans best
        exact if_neg lasts
    rw [same]
    refine ⟨rows, ?_⟩
    obtain ⟨cid, best, here⟩ := Option.bind_eq_some_iff.mp best
    obtain ⟨kept, -⟩ | ⟨heads, vacated⟩ := passes.title
    · refine .inr ⟨fun vacates => lasts ?_, kept⟩
      exact vacates.2 cid c (kept.symm.trans best) (rows ▸ here)
    · exact .inl ⟨⟨none_, fun cid c best here => vacated cid c best (rows ▸ here)⟩, heads⟩
  · have same : s.cascadeQuarantine obj imports origin = t.handOver obj := by
      refine (if_neg none_).trans ?_
      split
      · rfl
      · next c best => exact if_pos (not_not.mp fun lasts => lasting ⟨c, best, lasts⟩)
    rw [same, handOver_candidates]
    refine ⟨rows, .inl ⟨⟨none_, fun cid c best here => ?_⟩, handOver_heads⟩⟩
    obtain ⟨kept, -⟩ | ⟨-, vacated⟩ := passes.title
    · by_contra lasts
      refine lasting ⟨c, ?_, lasts⟩
      rw [kept, Store.best, rows]
      exact Option.bind_eq_some_iff.mpr ⟨cid, best, here⟩
    · exact vacated cid c best (rows ▸ here)

@[simp]
theorem cascadeQuarantine_candidates :
    (s.cascadeQuarantine obj imports origin).candidates = withoutTainted s.candidates imports origin :=
  (cascadeQuarantine_cases obj s imports origin).1

theorem cascadeQuarantine_heads
    (vacates : Vacates s imports origin) : Heads obj (s.cascadeQuarantine obj imports origin) := by
  obtain ⟨-, heads⟩ | ⟨not_, -⟩ := (cascadeQuarantine_cases obj s imports origin).2
  · exact heads
  · exact absurd vacates not_

theorem cascadeQuarantine_bestId
    (not_ : ¬Vacates s imports origin) :
    (s.cascadeQuarantine obj imports origin).bestId = s.bestId := by
  obtain ⟨vacates, -⟩ | ⟨-, same⟩ := (cascadeQuarantine_cases obj s imports origin).2
  · exact absurd vacates not_
  · exact same

theorem cascadeQuarantine_passes (obj : Objective) (s : Store) (imports : Text → Bool)
    (origin : Option CandidateId) : Passes obj s (s.cascadeQuarantine obj imports origin) where
  rows := by
    obtain ⟨both, same⟩ := disqualified_disqualified s.candidates (Tainted imports origin) _
    exact ⟨both, cascadeQuarantine_candidates.trans same⟩
  title := by
    by_cases vacates : Vacates s imports origin
    · refine .inr ⟨cascadeQuarantine_heads vacates, fun cid c best here => ?_⟩
      exact vacates.2 cid c best (cascadeQuarantine_candidates ▸ here)
    · refine .inl ⟨cascadeQuarantine_bestId vacates, fun cid c best here => ?_⟩
      rw [cascadeQuarantine_candidates]
      by_cases none_ : tainted s.candidates imports origin = []
      · rw [withoutTainted_of_none none_]
        exact here
      -- the row of the holder is not disqualified, so that it is the one that was there
      simp only [Vacates, not_and, not_forall] at vacates
      obtain ⟨cid', c', best', here', lasts⟩ := vacates none_
      cases best.symm.trans best'
      obtain ⟨both, same⟩ := disqualified_disqualified s.candidates (Tainted imports origin)
        (dependents (disqualified s.candidates (Tainted imports origin)) []
          ((tainted s.candidates imports origin).map fun pair => pair.2.seq))
      cases of_get?_disqualified (same ▸ here' : (disqualified s.candidates both).get? cid = some c') with
      | inl fail => exact absurd fail lasts
      | inr row =>
        cases here.symm.trans row.1
        exact here'

end Store

end FreeSwarm.Objectives
