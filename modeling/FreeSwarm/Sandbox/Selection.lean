import FreeSwarm.Foundation.Blocks
import FreeSwarm.Foundation.Distinct
import FreeSwarm.Foundation.NpFloat
import Mathlib.Data.List.Induction

/-!
# Selecting decisions

`meta_filter` learns which decisions are good from the sessions before, `admit` takes the first decisions of a session
whose scores clear the bar of the sessions before. Neither knows what comes later.
-/

namespace FreeSwarm.Sandbox

open FreeSwarm.Foundation

variable {S F M P : Type} [LinearOrder S]

/-- The rank of a session among all, which is its index in `np.unique(sessions)`. -/
def sessionRank (sessions : List S) (s : S) : Nat := (distinct sessions).idxOf s

/-- What is read of the decisions of the sessions from the index `lo` on to before the index `d`. -/
def windowed {α β : Type} (session : α → S) (read : α → Option β) (lo : Int) (d : Nat) (ds : List α) : List β :=
  ds.filterMap fun x =>
    if lo ≤ sessionRank (ds.map session) (session x) ∧ sessionRank (ds.map session) (session x) < d then read x
    else none

/-! ## Learning from past sessions -/

/-- A decision that is learned from. -/
structure Labelled (S F : Type) where
  session : S
  features : F
  label : NpFloat

def Labelled.example? (x : Labelled S F) : Option (F × ℚ) :=
  match x.label with
  | .fin y => some (x.features, y)
  | _ => none

/-- The model that is fitted. -/
structure Learner (F M P : Type) where
  fit : List (F × ℚ) → M
  prob : M → F → P

/-- How `meta_filter` is called. -/
structure MetaSettings where
  minTrainSessions : Int
  refitEvery : Int
  windowSessions : Option Int

variable (cfg : MetaSettings) (learner : Learner F M P)

/-- `lo`: the first session that is learned from. -/
def MetaSettings.first (d : Nat) : Int :=
  match cfg.windowSessions with
  | none => 0
  | some window => if window = 0 then 0 else max 0 ((d : Int) - window)

variable (ds : List (Labelled S F))

/-- `Xt` and `yt`: the decisions of the window before a session whose labels are known. -/
def trainingSet (d : Nat) : List (F × ℚ) :=
  windowed Labelled.session Labelled.example? (cfg.first d) d ds

/-- There are ten decisions and two labels. -/
def learnable (training : List (F × ℚ)) : Bool :=
  decide (10 ≤ training.length) && decide (2 ≤ (training.map Prod.snd).dedup.length)

/-- What is carried from session to session. -/
structure MetaState (M : Type) where
  /-- `w`, `mu` and `sd`. -/
  model : Option M
  fittedAt : Int

/-- One session: what is carried on, and the model that it is judged by. -/
def metaRound (training : List (F × ℚ)) (d : Nat) (s : MetaState M) : MetaState M × Option M :=
  if (d : Int) < cfg.minTrainSessions then (s, none)
  else if s.model.isNone ∨ cfg.refitEvery ≤ d - s.fittedAt then
    if learnable training then
      ({ model := some (learner.fit training), fittedAt := d }, some (learner.fit training))
    else (s, none)
  else (s, s.model)

/-- What is carried to a session. -/
def metaState (ds : List (Labelled S F)) : Nat → MetaState M
  | 0 => { model := none, fittedAt := -10 ^ 9 }
  | d + 1 => (metaRound cfg learner (trainingSet cfg ds d) d (metaState ds d)).1

def metaModel (d : Nat) : Option M :=
  (metaRound cfg learner (trainingSet cfg ds d) d (metaState cfg learner ds d)).2

/-- `meta_filter`: the probability of each decision, or nothing. -/
def metaFilter : List (Option P) :=
  ds.map fun x => (metaModel cfg learner ds (sessionRank (ds.map Labelled.session) x.session)).map fun model =>
    learner.prob model x.features

/-! ## Admission -/

structure Scored (S : Type) where
  session : S
  score : NpFloat

def Scored.finite? (x : Scored S) : Option ℚ :=
  match x.score with
  | .fin y => some y
  | _ => none

/-- How `admit` is called. -/
structure AdmitSettings where
  perDay : Nat
  windowSessions : Int
  minSessions : Int
  floor : Option ℚ

variable (adm : AdmitSettings)

variable (ds : List (Scored S))

/-- `past`: the scores of the window before a session. -/
def pastScores (d : Nat) : List ℚ :=
  windowed Scored.session Scored.finite? (max 0 ((d : Int) - adm.windowSessions)) d ds

/-- The bar that would have let `want` scores through. An index below zero counts from the end. -/
def barOf (past : List ℚ) (want : Int) : ℚ :=
  if want < past.length then
    (past.insertionSort (· ≥ ·)).getD (if want = 0 then past.length - 1 else (want - 1).toNat) 0
  else past.min?.getD 0

/-- `bar`: what a score of a session has to reach, if anything is taken. -/
def sessionBar (d : Nat) : Option ℚ :=
  if (d : Int) < adm.minSessions then none
  else if (pastScores adm ds d).isEmpty then none
  else
    let bar := barOf (pastScores adm ds d) (adm.perDay * (d - max 0 ((d : Int) - adm.windowSessions)))
    some (match adm.floor with
      | none => bar
      | some floor => max bar floor)

def clears (bar : ℚ) : NpFloat → Bool
  | .fin x => decide (bar ≤ x)
  | _ => false

/-- `taken`, after some scores of a session. -/
def takenAfter (bar : ℚ) (scores : List NpFloat) : Nat :=
  scores.foldl (fun taken x => if taken < adm.perDay ∧ clears bar x = true then taken + 1 else taken) 0

/-- The scores of a session among the first decisions. -/
def scoresBefore (s : S) (n : Nat) : List NpFloat :=
  ((ds.take n).filter fun x => x.session = s).map Scored.score

/-- A decision is taken. -/
def admitAt (i : Nat) : Bool :=
  ds[i]?.any fun x => (sessionBar adm ds (sessionRank (ds.map Scored.session) x.session)).any fun bar =>
    decide (takenAfter adm bar (scoresBefore ds x.session i) < adm.perDay) && clears bar x.score

/-- `admit`. -/
def admits : List Bool := (List.range ds.length).map (admitAt adm ds)

/-! ## Ranks -/

theorem sessionRank_eq {sessions : List S} {s : S} (mem : s ∈ sessions) :
    sessionRank sessions s = (distinct (sessions.filter fun t => t < s)).length := idxOf_distinct mem

theorem sessionRank_lt_iff {sessions : List S} {s t : S} (mem : s ∈ sessions) (mem' : t ∈ sessions) :
    sessionRank sessions s < sessionRank sessions t ↔ s < t := by
  have mono : ∀ {a b : S}, a ≤ b → (distinct (sessions.filter fun t => t < a)).length ≤
      (distinct (sessions.filter fun t => t < b)).length := by
    intro a b le
    rw [distinct_filter, distinct_filter]
    refine List.Sublist.length_le (List.monotone_filter_right _ fun t lt => ?_)
    exact decide_eq_true (lt_of_lt_of_le (of_decide_eq_true lt) le)
  rw [sessionRank_eq mem, sessionRank_eq mem']
  constructor
  · intro lt
    by_contra ge
    exact absurd (mono (not_lt.mp ge)) (Nat.not_le.mpr lt)
  · intro lt
    obtain ⟨rest, split, -⟩ := distinct_split (l := sessions.filter fun u => u < t)
      (List.mem_filter.mpr ⟨mem, decide_eq_true lt⟩)
    have inner : ((sessions.filter fun u => u < t).filter fun u => u < s) = sessions.filter fun u => u < s := by
      rw [List.filter_filter]
      refine List.filter_congr fun u _ => ?_
      by_cases below : u < s
      · simp [below, below.trans lt]
      · simp [below]
    rw [split, inner, List.length_append, List.length_cons]
    omega

/-! ## What is known before a session -/

section Earlier

variable {α β : Type} {session : α → S} {ds ds' : List α} {i : Nat} {x : α} {a : S}

def earlier (session : α → S) (a : S) (ds : List α) : List α := ds.filter fun x => session x < a

theorem map_earlier (session : α → S) (a : S) (ds : List α) :
    (earlier session a ds).map session = (ds.map session).filter fun s => s < a := by
  rw [earlier, List.filter_map]
  rfl

theorem sessionRank_earlier (mem : x ∈ ds) (before : session x < a) :
    sessionRank ((earlier session a ds).map session) (session x) = sessionRank (ds.map session) (session x) := by
  have there : session x ∈ ds.map session := List.mem_map_of_mem mem
  have there' : session x ∈ (ds.map session).filter fun s => s < a :=
    List.mem_filter.mpr ⟨there, decide_eq_true before⟩
  rw [map_earlier, sessionRank_eq there, sessionRank_eq there', List.filter_filter]
  refine congrArg (fun l => (distinct l).length) (List.filter_congr fun t _ => ?_)
  by_cases below : t < session x
  · simp [below, below.trans before]
  · simp [below]

theorem windowed_earlier (read : α → Option β) (lo : Int) {d : Nat} (mem : a ∈ ds.map session)
    (upTo : d ≤ sessionRank (ds.map session) a) :
    windowed session read lo d ds = windowed session read lo d (earlier session a ds) := by
  unfold windowed
  rw [earlier, List.filterMap_filter]
  refine List.filterMap_congr fun x there => ?_
  by_cases before : session x < a
  · rw [if_pos (decide_eq_true before), ← earlier, sessionRank_earlier there before]
  · have late : ¬ sessionRank (ds.map session) (session x) < d := by
      intro lt
      have less := Nat.lt_of_lt_of_le lt upTo
      exact before ((sessionRank_lt_iff (List.mem_map_of_mem there) mem).mp less)
    rw [if_neg (fun both => late both.2), if_neg (by simpa using before)]

theorem earlier_take (order : ds.Pairwise fun x y => session x ≤ session y) (there : ds[i]? = some x) :
    earlier session (session x) ds = earlier session (session x) (ds.take i) :=
  filter_take_of_lt session order there fun _ before => of_decide_eq_true before

theorem sessionRank_congr (mem : a ∈ ds.map session) (mem' : a ∈ ds'.map session)
    (same : earlier session a ds = earlier session a ds') :
    sessionRank (ds.map session) a = sessionRank (ds'.map session) a := by
  rw [sessionRank_eq mem, sessionRank_eq mem', ← map_earlier, ← map_earlier, same]

theorem windowed_congr (read : α → Option β) (lo : Int) {d : Nat} (mem : a ∈ ds.map session)
    (mem' : a ∈ ds'.map session) (same : earlier session a ds = earlier session a ds')
    (upTo : d ≤ sessionRank (ds.map session) a) :
    windowed session read lo d ds = windowed session read lo d ds' := by
  have upTo' : d ≤ sessionRank (ds'.map session) a := sessionRank_congr mem mem' same ▸ upTo
  rw [windowed_earlier read lo mem upTo, windowed_earlier read lo mem' upTo', same]

end Earlier

/-! ## What is known at a decision -/

section Known

variable {ds ds' : List (Labelled S F)} {a : S} {i : Nat} {x : Labelled S F}

/-- What is known of a decision in a session: labels are those of earlier sessions. -/
def knownTo (a : S) (x : Labelled S F) : S × F × Option NpFloat :=
  (x.session, x.features, if x.session < a then some x.label else none)

theorem earlier_known (ds : List (Labelled S F)) :
    earlier Labelled.session a ds =
      (ds.map (knownTo a)).filterMap fun k => k.2.2.map fun label => Labelled.mk k.1 k.2.1 label := by
  rw [earlier, List.filterMap_map, ← List.filterMap_eq_filter]
  refine List.filterMap_congr fun x _ => ?_
  by_cases before : x.session < a
  · simp [Option.guard, knownTo, before]
  · simp [Option.guard, knownTo, before]

variable {cfg learner}

theorem metaState_congr (mem : a ∈ ds.map Labelled.session) (mem' : a ∈ ds'.map Labelled.session)
    (same : earlier Labelled.session a ds = earlier Labelled.session a ds') {d : Nat}
    (upTo : d ≤ sessionRank (ds.map Labelled.session) a) :
    metaState cfg learner ds d = metaState cfg learner ds' d := by
  induction d with
  | zero => rfl
  | succ d ih =>
    have training : trainingSet cfg ds d = trainingSet cfg ds' d :=
      windowed_congr _ _ mem mem' same (Nat.le_of_succ_le upTo)
    rw [metaState, metaState, training, ih (Nat.le_of_succ_le upTo)]

theorem metaModel_congr (mem : a ∈ ds.map Labelled.session) (mem' : a ∈ ds'.map Labelled.session)
    (same : earlier Labelled.session a ds = earlier Labelled.session a ds') :
    metaModel cfg learner ds (sessionRank (ds.map Labelled.session) a) =
      metaModel cfg learner ds' (sessionRank (ds'.map Labelled.session) a) := by
  have training : trainingSet cfg ds (sessionRank (ds.map Labelled.session) a) =
      trainingSet cfg ds' (sessionRank (ds.map Labelled.session) a) :=
    windowed_congr _ _ mem mem' same (Nat.le_refl _)
  rw [← sessionRank_congr mem mem' same, metaModel, metaModel, training,
    metaState_congr mem mem' same (Nat.le_refl _)]

theorem metaFilter_congr (order : ds.Pairwise fun x y => x.session ≤ y.session)
    (order' : ds'.Pairwise fun x y => x.session ≤ y.session) (there : ds[i]? = some x)
    (known : (ds.take (i + 1)).map (knownTo x.session) = (ds'.take (i + 1)).map (knownTo x.session)) :
    (metaFilter cfg learner ds)[i]? = (metaFilter cfg learner ds')[i]? := by
  have at_ : ds'[i]?.map (knownTo x.session) = some (knownTo x.session x) := by
    have read := congrArg (fun l => l[i]?) known
    simp only [List.getElem?_map, List.getElem?_take_of_succ, there, Option.map_some] at read
    exact read.symm
  obtain ⟨x', there', eq⟩ := Option.map_eq_some_iff.mp at_
  have session : x'.session = x.session := congrArg Prod.fst eq
  have features : x'.features = x.features := congrArg (fun k => k.2.1) eq
  have before : (ds.take i).map (knownTo x.session) = (ds'.take i).map (knownTo x.session) := by
    have cut := congrArg (List.take i) known
    rwa [← List.map_take, ← List.map_take, List.take_take, List.take_take, Nat.min_eq_left (Nat.le_succ i)] at cut
  have same : earlier Labelled.session x.session ds = earlier Labelled.session x.session ds' := by
    have cut' := earlier_take order' there'
    rw [session] at cut'
    rw [earlier_take order there, cut', earlier_known, earlier_known, before]
  have mem : x.session ∈ ds.map Labelled.session := List.mem_map_of_mem (List.mem_of_getElem? there)
  have mem' : x.session ∈ ds'.map Labelled.session := session ▸ List.mem_map_of_mem (List.mem_of_getElem? there')
  rw [metaFilter, metaFilter, List.getElem?_map, List.getElem?_map, there, there', Option.map_some, Option.map_some,
    session, features, metaModel_congr mem mem' same]

end Known

/-! ## What is taken -/

section Taken

variable {adm} {ds ds' : List (Scored S)} {s : S} {i n : Nat} {x : Scored S}

/-- The number of decisions of a session that are taken among the first ones. -/
def takenBefore (adm : AdmitSettings) (ds : List (Scored S)) (s : S) (n : Nat) : Nat :=
  ((ds.zip (admits adm ds)).take n).countP fun p => decide (p.1.session = s) && p.2

theorem admit_getElem? (there : ds[i]? = some x) : (admits adm ds)[i]? = some (admitAt adm ds i) := by
  rw [admits, List.getElem?_map, List.getElem?_range (List.getElem?_eq_some_iff.mp there).1, Option.map_some]

theorem takenBefore_succ (there : ds[n]? = some x) :
    takenBefore adm ds s (n + 1) =
      takenBefore adm ds s n + if x.session = s ∧ admitAt adm ds n = true then 1 else 0 := by
  have last : (ds.zip (admits adm ds))[n]? = some (x, admitAt adm ds n) := by
    rw [List.getElem?_zip_eq_some]
    exact ⟨there, admit_getElem? there⟩
  rw [takenBefore, List.take_add_one, last, List.countP_append, takenBefore, Option.toList_some, List.countP_singleton]
  simp only [Bool.and_eq_true, decide_eq_true_eq]

theorem scoresBefore_succ (there : ds[n]? = some x) :
    scoresBefore ds s (n + 1) = scoresBefore ds s n ++ if x.session = s then [x.score] else [] := by
  rw [scoresBefore, List.take_add_one, there, List.filter_append, List.map_append, scoresBefore, Option.toList_some]
  by_cases is_ : x.session = s
  · simp [is_]
  · simp [is_]

theorem takenAfter_append (bar : ℚ) (scores : List NpFloat) (x : NpFloat) :
    takenAfter adm bar (scores ++ [x]) =
      takenAfter adm bar scores + if takenAfter adm bar scores < adm.perDay ∧ clears bar x = true then 1 else 0 := by
  rw [takenAfter, List.foldl_append, ← takenAfter, List.foldl_cons, List.foldl_nil]
  split <;> rfl

theorem takenAfter_le (bar : ℚ) (scores : List NpFloat) : takenAfter adm bar scores ≤ adm.perDay := by
  induction scores using List.reverseRecOn with
  | nil => exact Nat.zero_le _
  | append_singleton scores x ih =>
    rw [takenAfter_append]
    split
    · next both => exact both.1
    · exact ih

theorem takenBefore_eq (inside : n ≤ ds.length) :
    takenBefore adm ds s n =
      ((sessionBar adm ds (sessionRank (ds.map Scored.session) s)).map fun bar =>
        takenAfter adm bar (scoresBefore ds s n)).getD 0 := by
  induction n with
  | zero =>
    cases sessionBar adm ds (sessionRank (ds.map Scored.session) s) with
    | none => simp [takenBefore]
    | some bar => simp [takenBefore, scoresBefore, takenAfter]
  | succ n ih =>
    obtain ⟨x, there⟩ : ∃ x, ds[n]? = some x := ⟨ds[n], List.getElem?_eq_getElem inside⟩
    rw [takenBefore_succ there, ih (Nat.le_of_succ_le inside), scoresBefore_succ there]
    by_cases is_ : x.session = s
    · subst is_
      rw [if_pos rfl]
      cases bar : sessionBar adm ds (sessionRank (ds.map Scored.session) x.session) with
      | none => simp [admitAt, there, bar]
      | some bar' => simp [admitAt, there, bar, takenAfter_append]
    · rw [if_neg is_, List.append_nil, if_neg (fun both => is_ both.1), Nat.add_zero]

theorem takenBefore_le (adm : AdmitSettings) (ds : List (Scored S)) (s : S) (inside : n ≤ ds.length) :
    takenBefore adm ds s n ≤ adm.perDay := by
  rw [takenBefore_eq inside]
  cases sessionBar adm ds (sessionRank (ds.map Scored.session) s) with
  | none => exact Nat.zero_le _
  | some bar => exact takenAfter_le bar _

theorem admit_iff (there : ds[i]? = some x) :
    (admits adm ds)[i]? = some true ↔
      takenBefore adm ds x.session i < adm.perDay ∧
        ∃ bar, sessionBar adm ds (sessionRank (ds.map Scored.session) x.session) = some bar ∧
          clears bar x.score = true := by
  rw [admit_getElem? there, takenBefore_eq (List.getElem?_eq_some_iff.mp there).1.le]
  cases bar : sessionBar adm ds (sessionRank (ds.map Scored.session) x.session) with
  | none => simp [admitAt, there, bar]
  | some bar' => simp [admitAt, there, bar]

theorem admit_congr (order : ds.Pairwise fun x y => x.session ≤ y.session)
    (order' : ds'.Pairwise fun x y => x.session ≤ y.session) (inside : i < ds.length)
    (agree : ds.take (i + 1) = ds'.take (i + 1)) : (admits adm ds)[i]? = (admits adm ds')[i]? := by
  obtain ⟨x, there⟩ : ∃ x, ds[i]? = some x := ⟨ds[i], List.getElem?_eq_getElem inside⟩
  have there' : ds'[i]? = some x := by
    rw [← there, ← List.getElem?_take_of_succ (l := ds'), ← agree, List.getElem?_take_of_succ]
  have before : ds.take i = ds'.take i := by
    have cut := congrArg (List.take i) agree
    rwa [List.take_take, List.take_take, Nat.min_eq_left (Nat.le_succ i)] at cut
  have same : earlier Scored.session x.session ds = earlier Scored.session x.session ds' := by
    rw [earlier_take order there, earlier_take order' there', before]
  have mem : x.session ∈ ds.map Scored.session := List.mem_map_of_mem (List.mem_of_getElem? there)
  have mem' : x.session ∈ ds'.map Scored.session := List.mem_map_of_mem (List.mem_of_getElem? there')
  have bar : sessionBar adm ds (sessionRank (ds.map Scored.session) x.session) =
      sessionBar adm ds' (sessionRank (ds'.map Scored.session) x.session) := by
    rw [← sessionRank_congr mem mem' same, sessionBar, sessionBar, pastScores, pastScores,
      windowed_congr _ _ mem mem' same (Nat.le_refl _)]
  have scores : scoresBefore ds x.session i = scoresBefore ds' x.session i := by
    rw [scoresBefore, before, ← scoresBefore]
  rw [admit_getElem? there, admit_getElem? there', admitAt, admitAt, there, there', Option.any_some, Option.any_some,
    bar, scores]

end Taken

/-- Decisions are selected by what is known when they are made, as many a session as there is room for. -/
theorem select_causal (cfg : MetaSettings) (learner : Learner F M P) (adm : AdmitSettings) :
    (∀ (ds ds' : List (Labelled S F)) (i : Nat) (x : Labelled S F),
      ds.Pairwise (fun x y => x.session ≤ y.session) → ds'.Pairwise (fun x y => x.session ≤ y.session) →
        ds[i]? = some x →
          (ds.take (i + 1)).map (knownTo x.session) = (ds'.take (i + 1)).map (knownTo x.session) →
            (metaFilter cfg learner ds)[i]? = (metaFilter cfg learner ds')[i]?) ∧
    (∀ (ds ds' : List (Scored S)) (i : Nat),
      ds.Pairwise (fun x y => x.session ≤ y.session) → ds'.Pairwise (fun x y => x.session ≤ y.session) →
        i < ds.length → ds.take (i + 1) = ds'.take (i + 1) → (admits adm ds)[i]? = (admits adm ds')[i]?) ∧
    (∀ (ds : List (Scored S)) (s : S), takenBefore adm ds s ds.length ≤ adm.perDay) ∧
    ∀ (ds : List (Scored S)) (i : Nat) (x : Scored S), ds[i]? = some x →
      ((admits adm ds)[i]? = some true ↔
        takenBefore adm ds x.session i < adm.perDay ∧
          ∃ bar, sessionBar adm ds (sessionRank (ds.map Scored.session) x.session) = some bar ∧
            clears bar x.score = true) :=
  ⟨fun _ _ _ _ order order' there known => metaFilter_congr order order' there known,
    fun _ _ _ order order' inside agree => admit_congr order order' inside agree,
    fun ds s => takenBefore_le adm ds s (Nat.le_refl _), fun _ _ _ there => admit_iff there⟩

/-- Decisions with features that are all alike, of which the share of good ones is learned. -/
def shareLearner : Learner Unit ℚ ℚ :=
  { fit := fun training => (training.map Prod.snd).foldr (· + ·) 0 / training.length, prob := fun share _ => share }

def halfGood (label : NpFloat) : List (Labelled Nat Unit) :=
  (List.range 10).map (fun i => ⟨0, (), .fin (i % 2 : Nat)⟩) ++ [⟨1, (), label⟩]

/-- A label that is not known yet and a later session do not count. -/
theorem select_causal_half :
    (metaFilter ⟨1, 5, none⟩ shareLearner (halfGood (.fin 1) ++ [⟨2, (), .fin 0⟩]))[10]? =
        (metaFilter ⟨1, 5, none⟩ shareLearner (halfGood .nan))[10]? ∧
      (metaFilter ⟨1, 5, none⟩ shareLearner (halfGood .nan))[10]? = some (some (1 / 2)) ∧
      (admits ⟨1, 40, 1, none⟩ ([⟨0, .fin 3⟩, ⟨1, .fin 4⟩, ⟨1, .fin 5⟩] : List (Scored Nat)))[2]? ≠ some true := by
  have causal := select_causal (S := Nat) ⟨1, 5, none⟩ shareLearner ⟨1, 40, 1, none⟩
  refine ⟨?_, by with_unfolding_all decide, ?_⟩
  · exact causal.1 _ _ 10 ⟨1, (), .fin 1⟩ (by decide) (by decide) rfl (by with_unfolding_all decide)
  · intro taken
    have room := ((causal.2.2.2 _ 2 ⟨1, .fin 5⟩ (by rfl)).mp taken).1
    exact absurd room (by with_unfolding_all decide)

end FreeSwarm.Sandbox
