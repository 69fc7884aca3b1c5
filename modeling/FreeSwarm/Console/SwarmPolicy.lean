import FreeSwarm.Foundation.Dict
import Mathlib.Algebra.Order.Field.Rat
import Mathlib.Data.List.MinMax
import Mathlib.Data.List.Sort
import Mathlib.Tactic.Linarith

/-!
# Which models a swarm uses

The models that a project may use search, or are reserved. The rules for scores place them first, and then
the roles that the operator gave them, the mentor and the budget of the search move them.
-/

namespace FreeSwarm.Console.SwarmPolicy

open FreeSwarm.Foundation

inductive Role where
  | auto
  | search
  | ideas
  | both
  deriving DecidableEq

/-- What `external` and `ratings` know of a name. -/
structure Known where
  isExternal : String → Bool
  ratingFor : String → Option String
  swe : String → Option ℚ
  aa : String → Option ℚ

structure Project where
  models : Option (List String)
  modelRoles : Dict String Role

/-- A loaded model. A hosted one has the block `external`, maybe with a price. -/
structure Loaded where
  model : String
  ready : Bool
  external : Option (Option ℚ)
  swe : Option ℚ
  aa : Option ℚ

structure Scored where
  model : String
  /-- `kind` is `external`. -/
  external : Bool
  swe : Option ℚ
  aa : Option ℚ
  ratingKey : Option String
  priceBlended : Option ℚ
  deriving DecidableEq

def permitted (known : Known) (project : Project) (name : String) : Bool :=
  if known.isExternal name then project.models.any (name ∈ ·) else project.models.all (name ∈ ·)

/-- `_scored`. -/
def scored (known : Known) (m : Loaded) : Scored where
  model := m.model
  external := m.external.isSome
  swe := m.swe.or (known.swe m.model)
  aa := m.aa.or (known.aa m.model)
  ratingKey := known.ratingFor m.model
  priceBlended := m.external.join

def readyModels (known : Known) (project : Project) (loaded : List Loaded) :
    List Scored :=
  (loaded.filter fun m => m.ready && permitted known project m.model).map (scored known)

def Scored.rated (m : Scored) : Bool := m.swe.isSome || m.aa.isSome

def names (l : List Scored) : List String := l.map Scored.model

section
variable (models : List Scored)

def free : List Scored := models.filter fun m => !m.external

def paid : List Scored := models.filter Scored.external

/-! ## Scores -/

def sweMargin : ℚ := 5

def aaMargin : ℚ := 5

/-- Whether a score is within the range of the free models, if both are known. -/
def within (score : Scored → Option ℚ) (margin : ℚ) (m : Scored) : Option Bool :=
  match score m, ((free models).filterMap score).min?, ((free models).filterMap score).max? with
  | some x, some lo, some hi => some (decide (lo - margin ≤ x ∧ x ≤ hi + margin))
  | _, _, _ => none

def searches (m : Scored) : Bool :=
  if m.external then
    m.ratingKey.any (fun key => decide (key ∈ (free models).filterMap Scored.ratingKey)) ||
      ((within models Scored.swe sweMargin m).or (within models Scored.aa aaMargin m)).getD false
  else !((free models).any Scored.rated && !m.rated)

/-- `search` and `reserved`. -/
structure Placed where
  search : List Scored
  reserved : List Scored

def byScores : Placed where
  search := (free models ++ paid models).filter (searches models)
  reserved := (free models ++ paid models).filter fun m => !searches models m

/-! ## The ladder -/

def bestFree : Option Scored :=
  ((free models).filter fun m => m.aa.isSome).argmax fun m => m.aa.getD 0

/-- Cheaper ones first, and better ones of one price. -/
def Cheaper (noPrice : ℚ) (m m' : Scored) : Prop :=
  m.priceBlended.getD noPrice < m'.priceBlended.getD noPrice ∨
    m.priceBlended.getD noPrice = m'.priceBlended.getD noPrice ∧ m'.aa.getD 0 ≤ m.aa.getD 0

instance (noPrice : ℚ) : DecidableRel (Cheaper noPrice) :=
  fun _ _ => inferInstanceAs (Decidable (_ ∨ _ ∧ _))

def climb : List Scored :=
  let floor := ((bestFree models).bind Scored.aa).getD (-1)
  ((paid models).filter fun m => m.aa.any (floor < ·) && m.priceBlended.isSome).insertionSort (Cheaper 0)

/-! ## Roles -/

/-- The last model of a name. -/
def byName (name : String) : Option Scored := models.reverse.find? (·.model = name)

def placeRole (placed : Placed) (entry : String × Role) : Placed :=
  match byName models entry.1 with
  | none => placed
  | some m =>
    if entry.2 ∈ [.search, .both] ∧ entry.1 ∉ names placed.search then
      ⟨placed.search ++ [m], placed.reserved.filter (·.model ≠ entry.1)⟩
    else if entry.2 = .ideas ∧ entry.1 ∈ names placed.search then
      ⟨placed.search.filter (·.model ≠ entry.1), placed.reserved ++ [m]⟩
    else placed

variable (roles : Dict String Role)

def marked : List Scored :=
  roles.entries.filterMap fun entry => if entry.2 ∈ [.ideas, .both] then byName models entry.1 else none

def ladder : List Scored :=
  if marked models roles = [] then (bestFree models).toList ++ climb models
  else (free (marked models roles)).insertionSort (fun m m' => m'.aa.getD (-1) ≤ m.aa.getD (-1)) ++
    (paid (marked models roles)).insertionSort (Cheaper 1000000000)

def notInLadder : List Scored :=
  if marked models roles = [] then (paid models).filter (· ∉ climb models)
  else (paid models).filter (·.model ∉ names (ladder models roles))

end

/-! ## Mentor and budget -/

section
variable (known : Known) (project : Project) (loaded : List Loaded)

def roleOf (name : String) : Role := (project.modelRoles.get? name).getD .auto

/-- Free models that start and will search. -/
def coming (have_ : List String) : List Scored :=
  let starting := loaded.filter fun m => !m.ready && decide (m.model ∉ have_) &&
    permitted known project m.model && !m.external.isSome && decide (roleOf project m.model ≠ .ideas)
  ((dictOf (starting.map fun m => (m.model, scored known m))).map Prod.snd).filter fun m =>
    m.rated || decide (roleOf project m.model ∈ [.search, .both])

def mentorMinSearchers : Nat := 2

/-- The mentors, and the models that search then. -/
def mentor (models search : List Scored) : List Scored × List Scored :=
  if free (marked models project.modelRoles) ≠ [] then (free (marked models project.modelRoles), search)
  else match bestFree models with
    | none => ([], search)
    | some best =>
      let others := (free search).filter (·.model ≠ best.model)
      let coming := coming known project loaded (best.model :: names search)
      if roleOf project best.model = .auto ∧ ¬coming.any (fun m => m.aa.any (best.aa.getD 0 < ·)) ∧
          mentorMinSearchers ≤ others.length + coming.length then
        ([best], if best.model ∈ names search then search else search ++ [best])
      else ([], search)

/-- Hosted models leave the search when its budget is spent. -/
def pause (spent : Bool) (placed : Placed) : Placed :=
  if spent then
    ⟨(paid placed.search).foldl List.erase placed.search,
      (paid placed.search).foldl (fun reserved m => reserved.filter (·.model ≠ m.model) ++ [m]) placed.reserved⟩
  else placed

structure Plan where
  models : List Scored
  search : List Scored
  reserved : List Scored
  ladder : List Scored
  notInLadder : List Scored
  mentors : List Scored

/-- `plan`, when the budget of the search is spent or not. -/
def plan (spent : Bool) : Plan :=
  let models := readyModels known project loaded
  let placed := project.modelRoles.entries.foldl (placeRole models) (byScores models)
  let mentored := mentor known project loaded models placed.search
  let paused := pause spent ⟨mentored.2, placed.reserved⟩
  { models, search := paused.search, reserved := paused.reserved, ladder := ladder models project.modelRoles,
    notInLadder := notInLadder models project.modelRoles, mentors := mentored.1 }

end
/-! ## Where a model is placed -/

section
variable {models : List Scored} {placed : Placed} {m : Scored}

/-- A name is of one model. -/
def Distinct (models : List Scored) : Prop :=
  ∀ m ∈ models, ∀ m' ∈ models, m.model = m'.model → m = m'

/-- What a role makes of the rules for scores. -/
def Verdict (role : Role) (byScores : Prop) : Prop :=
  match role with
  | .auto => byScores
  | .search | .both => True
  | .ideas => False

structure Placed.Sound (models : List Scored) (placed : Placed) : Prop where
  search : ∀ m ∈ placed.search, m ∈ models
  reserved : ∀ m, m ∈ placed.reserved ↔ m ∈ models ∧ m ∉ placed.search

theorem mem_free_or_paid : m ∈ free models ++ paid models ↔ m ∈ models := by
  cases kind : m.external <;> simp [free, paid, kind]

theorem sound_byScores : (byScores models).Sound models where
  search m mem := mem_free_or_paid.mp (List.mem_filter.mp mem).1
  reserved m := by
    simp only [byScores, List.mem_filter, mem_free_or_paid]
    grind

theorem mem_byScores (mem : m ∈ models) : m ∈ (byScores models).search ↔ searches models m := by
  simp only [byScores, List.mem_filter, mem_free_or_paid, mem, true_and]

theorem byName_eq_some {name : String} (found : byName models name = some m) : m ∈ models ∧ m.model = name :=
  ⟨by simpa using List.mem_of_find?_eq_some found, by simpa using List.find?_some found⟩

theorem byName_eq_none {name : String} (found : byName models name = none) (mem : m ∈ models) : m.model ≠ name := by
  simpa using List.find?_eq_none.mp found m (by simpa using mem)

theorem mem_names {l : List Scored} (distinct : Distinct models) (sub : ∀ m ∈ l, m ∈ models)
    (mem : m ∈ models) : m.model ∈ names l ↔ m ∈ l := by
  refine ⟨fun there => ?_, List.mem_map_of_mem⟩
  obtain ⟨m', here, same⟩ := List.mem_map.mp there
  exact distinct m' (sub m' here) m mem same ▸ here

theorem Placed.Sound.placeRole (distinct : Distinct models) (sound : placed.Sound models) (entry : String × Role) :
    (placeRole models placed entry).Sound models ∧ ∀ m ∈ models, m ∈ (placeRole models placed entry).search ↔
      if m.model = entry.1 then Verdict entry.2 (m ∈ placed.search) else m ∈ placed.search := by
  obtain ⟨name, role⟩ := entry
  rw [SwarmPolicy.placeRole]
  cases found : byName models name with
  | none => exact ⟨sound, fun m mem => by rw [if_neg (byName_eq_none found mem)]⟩
  | some m₀ =>
    obtain ⟨mem₀, rfl⟩ := byName_eq_some found
    have same : ∀ m ∈ models, m.model = m₀.model ↔ m = m₀ :=
      fun m mem => ⟨distinct m mem m₀ mem₀, fun same => same ▸ rfl⟩
    simp only [mem_names distinct sound.search mem₀]
    obtain ⟨search, reserved⟩ := placed
    obtain ⟨sub, rest⟩ := sound
    simp only at sub rest ⊢
    split
    · refine ⟨⟨?_, ?_⟩, ?_⟩ <;> simp only [List.mem_append, List.mem_filter] <;> grind [Verdict]
    · split
      · refine ⟨⟨?_, ?_⟩, ?_⟩ <;> simp only [List.mem_append, List.mem_filter] <;> grind [Verdict]
      · refine ⟨⟨sub, rest⟩, ?_⟩
        cases role <;> grind [Verdict]

theorem Placed.Sound.roles (distinct : Distinct models) (sound : placed.Sound models)
    (entries : List (String × Role)) (nodup : (entries.map Prod.fst).Nodup) :
    (entries.foldl (SwarmPolicy.placeRole models) placed).Sound models ∧
      ∀ m ∈ models, m ∈ (entries.foldl (SwarmPolicy.placeRole models) placed).search ↔
        Verdict ((entries.lookup m.model).getD .auto) (m ∈ placed.search) := by
  induction entries generalizing placed with
  | nil => exact ⟨sound, fun _ _ => Iff.rfl⟩
  | cons entry entries ih =>
    obtain ⟨new, nodup⟩ := List.nodup_cons.mp nodup
    obtain ⟨sound, placed_iff⟩ := sound.placeRole distinct entry
    obtain ⟨sound, later⟩ := ih sound nodup
    refine ⟨sound, fun m mem => ?_⟩
    rw [List.foldl_cons, later m mem, placed_iff m mem, List.lookup_cons]
    by_cases same : m.model = entry.1
    · have absent : entries.lookup entry.1 = none :=
        List.lookup_eq_none_iff.mpr fun pair there =>
          bne_iff_ne.mpr fun eq => new (eq ▸ List.mem_map_of_mem there)
      simp [same, absent, Verdict]
    · simp [beq_eq_false_iff_ne.mpr same, same]

theorem mem_requeue {search reserved : List Scored} (distinct : Distinct models)
    (sub : ∀ m ∈ search, m ∈ models) (sub' : ∀ m ∈ reserved, m ∈ models) :
    m ∈ search.foldl (fun reserved m => reserved.filter (·.model ≠ m.model) ++ [m]) reserved ↔
      m ∈ reserved ∨ m ∈ search := by
  induction search generalizing reserved with
  | nil => simp
  | cons m' search ih =>
    obtain ⟨here, sub⟩ := List.forall_mem_cons.mp sub
    rw [List.foldl_cons, ih sub fun m mem => by simp at mem; grind]
    have := distinct m
    simp only [List.mem_append, List.mem_filter, List.mem_cons, decide_eq_true_eq]
    grind

theorem diff_paid (search : List Scored) : search.diff (paid search) = free search := by
  induction search with
  | nil => rfl
  | cons m search ih =>
    by_cases hosted : m.external
    · simpa [paid, free, hosted] using ih
    · have out : m ∉ paid search := by simp [paid, hosted]
      rw [paid, List.filter_cons_of_neg hosted, ← paid, List.cons_diff_of_not_mem out, ih]
      simp [free, hosted]

theorem mem_paid : m ∈ paid models ↔ m ∈ models ∧ m.external := List.mem_filter

theorem mem_free : m ∈ free models ↔ m ∈ models ∧ ¬m.external := by
  simp [free]

theorem Placed.Sound.pause (distinct : Distinct models) (sound : placed.Sound models) (spent : Bool) :
    (SwarmPolicy.pause spent placed).Sound models ∧
      ∀ m, m ∈ (SwarmPolicy.pause spent placed).search ↔ m ∈ placed.search ∧ ¬(spent ∧ m.external) := by
  cases spent with
  | false => exact ⟨sound, fun m => by simp [SwarmPolicy.pause]⟩
  | true =>
    simp only [SwarmPolicy.pause, ↓reduceIte, ← List.diff_eq_foldl, diff_paid]
    refine ⟨⟨fun m mem => sound.search m (mem_free.mp mem).1, fun m => ?_⟩, fun m => by simp [mem_free]⟩
    refine (mem_requeue distinct (fun m mem => sound.search m (mem_paid.mp mem).1)
      fun m mem => ((sound.reserved m).mp mem).1).trans ?_
    rw [mem_free, sound.reserved, mem_paid]
    have := sound.search m
    grind

end

section
variable {known : Known} {project : Project} {loaded : List Loaded} {models search : List Scored} {m : Scored}

theorem bestFree_spec (best : bestFree models = some m) :
    m ∈ free models ∧ ∃ x, m.aa = some x ∧ ∀ f ∈ free models, ∀ y ∈ f.aa, y ≤ x := by
  obtain ⟨mem, known_⟩ := List.mem_filter.mp (List.argmax_mem best)
  obtain ⟨x, aa⟩ := Option.isSome_iff_exists.mp known_
  refine ⟨mem, x, aa, fun f there y score => ?_⟩
  have le := List.le_of_mem_argmax (List.mem_filter.mpr ⟨there, by simp [Option.mem_def.mp score]⟩) best
  simpa [aa, Option.mem_def.mp score] using le

theorem mem_climb : m ∈ climb models ↔ (m ∈ models ∧ m.external) ∧
    (∃ x ∈ m.aa, ((bestFree models).bind Scored.aa).getD (-1) < x) ∧ m.priceBlended.isSome := by
  simp [climb, paid, List.mem_insertionSort, Option.any_eq_true, and_left_comm, and_comm, and_assoc]

theorem above_of_mem_climb (mem : m ∈ climb models) :
    ∃ x ∈ m.aa, ∀ f ∈ free models, ∀ y ∈ f.aa, y < x := by
  obtain ⟨-, ⟨x, score, above⟩, -⟩ := mem_climb.mp mem
  refine ⟨x, score, fun f there y here => ?_⟩
  cases best : bestFree models with
  | none =>
    have none_rated := List.argmax_eq_none.mp best
    exact absurd (List.mem_filter.mpr ⟨there, by simp [Option.mem_def.mp here]⟩) (none_rated ▸ List.not_mem_nil)
  | some b =>
    obtain ⟨-, z, aa, le⟩ := bestFree_spec best
    simp only [best, Option.bind_some, aa, Option.getD_some] at above
    exact (le f there y here).trans_lt above

instance (noPrice : ℚ) : Std.Total (Cheaper noPrice) where
  total m m' := by
    unfold Cheaper
    grind

instance (noPrice : ℚ) : IsTrans Scored (Cheaper noPrice) where
  trans m m' m'' := by
    unfold Cheaper
    grind

theorem climb_pairwise : (climb models).Pairwise fun m m' => m.priceBlended.getD 0 ≤ m'.priceBlended.getD 0 :=
  (List.pairwise_insertionSort (Cheaper 0) _).imp fun cheaper => cheaper.elim le_of_lt fun same => same.1.le

/-! ## What a plan obeys -/

/-- A score is comparable with those of the free models. -/
def Comparable (models : List Scored) (score : Scored → Option ℚ) (m : Scored) : Prop :=
  (score m).isSome ∧ ∃ f ∈ free models, (score f).isSome

/-- A score is within the range of those of the free models, with a margin. -/
def Near (models : List Scored) (score : Scored → Option ℚ) (margin : ℚ) (m : Scored) : Prop :=
  ∃ x ∈ score m, (∃ f ∈ free models, ∃ lo ∈ score f, lo - margin ≤ x) ∧
    ∃ f ∈ free models, ∃ hi ∈ score f, x ≤ hi + margin

/-- A model is one of the free ones, or has their ability by SWE, or by AA where SWE does not tell. -/
def Peer (models : List Scored) (m : Scored) : Prop :=
  (∃ key ∈ m.ratingKey, ∃ f ∈ free models, f.ratingKey = some key) ∨ Near models Scored.swe sweMargin m ∨
    ¬Comparable models Scored.swe m ∧ Near models Scored.aa aaMargin m

theorem near_of_within {score : Scored → Option ℚ} {margin : ℚ} (near : (within models score margin m).getD false) :
    Near models score margin m := by
  rw [within] at near
  split at near
  · rename_i x lo hi score_ least most
    obtain ⟨f, mem, low⟩ := List.mem_filterMap.mp (List.min?_mem least)
    obtain ⟨f', mem', high⟩ := List.mem_filterMap.mp (List.max?_mem most)
    have bounds : lo - margin ≤ x ∧ x ≤ hi + margin := by simpa using near
    exact ⟨x, score_, ⟨f, mem, lo, low, bounds.1⟩, f', mem', hi, high, bounds.2⟩
  · cases near

theorem not_comparable_of_within {score : Scored → Option ℚ} {margin : ℚ}
    (none_ : within models score margin m = none) : ¬Comparable models score m := by
  rintro ⟨known_, f, mem, score_⟩
  obtain ⟨x, here⟩ := Option.isSome_iff_exists.mp known_
  obtain ⟨y, there⟩ := Option.isSome_iff_exists.mp score_
  have some_ : (free models).filterMap score ≠ [] := List.ne_nil_of_mem (List.mem_filterMap.mpr ⟨f, mem, there⟩)
  obtain ⟨lo, least⟩ := Option.ne_none_iff_exists'.mp fun none_ => some_ (List.min?_eq_none_iff.mp none_)
  obtain ⟨hi, most⟩ := Option.ne_none_iff_exists'.mp fun none_ => some_ (List.max?_eq_none_iff.mp none_)
  simp [within, here, least, most] at none_

theorem peer_of_searches (hosted : m.external) (searched : searches models m) : Peer models m := by
  rw [searches, if_pos hosted, Bool.or_eq_true] at searched
  rcases searched with key | scores
  · obtain ⟨key, here, mem⟩ := (Option.any_eq_true _ _).mp key
    obtain ⟨f, there, same⟩ := List.mem_filterMap.mp (of_decide_eq_true mem)
    exact .inl ⟨key, here, f, there, same⟩
  · cases swe : within models Scored.swe sweMargin m with
    | some near => exact .inr (.inl (near_of_within (by simpa [swe] using scores)))
    | none => exact .inr (.inr ⟨not_comparable_of_within swe, near_of_within (by simpa [swe] using scores)⟩)

theorem mem_marked {roles : Dict String Role} (mem : m ∈ marked models roles) :
    m ∈ models ∧ ∃ role, roles.get? m.model = some role ∧ role ∈ [.ideas, .both] := by
  obtain ⟨⟨name, role⟩, there, found⟩ := List.mem_filterMap.mp mem
  obtain ⟨idea, found⟩ := Option.ite_none_right_eq_some.mp found
  obtain ⟨mem, rfl⟩ := byName_eq_some found
  exact ⟨mem, role, Dict.mem_entries_iff.mp there, idea⟩

theorem mentor_search (rated : ∀ best, bestFree models = some best → roleOf project best.model = .auto → best ∈ search) :
    (mentor known project loaded models search).2 = search := by
  unfold mentor
  split
  · rfl
  · cases found : bestFree models with
    | none => rfl
    | some best =>
      dsimp only
      split
      · rename_i auto
        exact if_pos (List.mem_map_of_mem (rated best found auto.1))
      · rfl

theorem mem_mentor {m : Scored} (mem : m ∈ (mentor known project loaded models search).1) : m ∈ models ∧ ¬m.external := by
  unfold mentor at mem
  split at mem
  · exact (mem_free.mp mem).imp_left fun mem => (mem_marked mem).1
  · cases best : bestFree models with
    | none => simp [best] at mem
    | some best' =>
      simp only [best] at mem
      split at mem
      · obtain rfl := List.mem_singleton.mp mem
        exact mem_free.mp (bestFree_spec best).1
      · simp at mem

/-- A model searches if its role says so or its scores do, unless it is paid and the budget is spent. -/
theorem plan_spec (spent : Bool) (distinct : Distinct (readyModels known project loaded)) :
    let p := plan known project loaded spent
    Placed.Sound p.models ⟨p.search, p.reserved⟩ ∧ ∀ m ∈ p.models, m ∈ p.search ↔
      Verdict (roleOf project m.model) (searches p.models m) ∧ ¬(spent ∧ m.external) := by
  intro p
  obtain ⟨sound, roles⟩ := sound_byScores.roles distinct project.modelRoles.entries project.modelRoles.nodup
  have searching := @mentor_search known _ loaded _ _ fun best found auto => by
    obtain ⟨mem, x, aa, -⟩ := bestFree_spec found
    obtain ⟨mem, free_⟩ := mem_free.mp mem
    refine (roles best mem).mpr ?_
    change Verdict (roleOf project best.model) _
    rw [auto]
    exact (mem_byScores mem).mpr (by simp [searches, free_, Scored.rated, aa])
  obtain ⟨sound, paused⟩ := sound.pause distinct spent
  simp only [p, plan, searching]
  refine ⟨sound, fun m mem => (paused m).trans ?_⟩
  rw [roles m mem, mem_byScores mem]
  rfl

/-- What the operator and the budget are promised. -/
structure Obeys (known : Known) (project : Project) (loaded : List Loaded) (spent : Bool) (p : Plan) : Prop where
  /-- The ready models that the project permits are placed, and no others. -/
  placed : ∀ m, m ∈ p.search ∨ m ∈ p.reserved ↔ m ∈ readyModels known project loaded
  once : ∀ name ∈ names p.search, name ∉ names p.reserved
  searches : ∀ m ∈ p.models, roleOf project m.model ∈ [.search, .both] → ¬(spent ∧ m.external) → m ∈ p.search
  ideas : ∀ m ∈ p.models, roleOf project m.model = .ideas → m ∉ p.search
  ticked : ∀ m ∈ p.models ++ p.search ++ p.reserved ++ p.ladder ++ p.notInLadder ++ p.mentors, m.external →
    ∃ allowed ∈ project.models, m.model ∈ allowed
  budget : spent → ∀ m ∈ p.search, ¬m.external
  stay : ∀ m, ¬m.external → (m ∈ p.search ↔ m ∈ (plan known project loaded false).search)
  peers : ∀ m ∈ p.search, m.external → roleOf project m.model = .auto → Peer p.models m
  /-- Without marks, the ladder is the best free model and then better paid ones. -/
  ladder : marked p.models project.modelRoles = [] → ∃ (best : Option Scored) (climb : List Scored),
    p.ladder = best.toList ++ climb ∧
      (∀ m ∈ best, m ∈ free p.models ∧ ∃ x ∈ m.aa, ∀ f ∈ free p.models, ∀ y ∈ f.aa, y ≤ x) ∧
      (best = none → ∀ f ∈ free p.models, f.aa = none) ∧
      (∀ m ∈ climb, m ∈ paid p.models ∧ m.priceBlended.isSome ∧
        ∃ x ∈ m.aa, ∀ f ∈ free p.models, ∀ y ∈ f.aa, y < x) ∧
      climb.Pairwise fun m m' => m.priceBlended.getD 0 ≤ m'.priceBlended.getD 0
  freeSearches : (∃ m ∈ free p.models, m.rated ∧ roleOf project m.model = .auto) → ∃ m ∈ p.search, ¬m.external

theorem mem_of_ladder {roles : Dict String Role} (mem : m ∈ ladder models roles) : m ∈ models := by
  rw [ladder] at mem
  split at mem
  · rcases List.mem_append.mp mem with best | climbs
    · exact (mem_free.mp (bestFree_spec (Option.mem_toList.mp best)).1).1
    · exact (mem_climb.mp climbs).1.1
  · simp only [List.mem_append, List.mem_insertionSort, mem_free, mem_paid] at mem
    exact mem.elim (fun mem => (mem_marked mem.1).1) fun mem => (mem_marked mem.1).1

theorem mem_of_notInLadder {roles : Dict String Role} (mem : m ∈ notInLadder models roles) : m ∈ models := by
  rw [notInLadder] at mem
  split at mem <;> exact (mem_paid.mp (List.mem_filter.mp mem).1).1

/-- A plan obeys the roles and the budget where a name is of one model, and the paid ones have names of hosted
models. -/
theorem plan_obeys (spent : Bool) (distinct : Distinct (readyModels known project loaded))
    (hosted : ∀ m ∈ loaded, m.external.isSome → known.isExternal m.model) :
    Obeys known project loaded spent (plan known project loaded spent) := by
  obtain ⟨sound, searching⟩ := plan_spec spent distinct
  have unspent := @plan_spec known project loaded false distinct
  exact {
    placed := fun m => ⟨fun mem => mem.elim (sound.search m) fun mem => ((sound.reserved m).mp mem).1, fun mem =>
      or_iff_not_imp_left.mpr fun out => (sound.reserved m).mpr ⟨mem, out⟩⟩
    once := by
      intro name here there
      obtain ⟨m, mem, rfl⟩ := List.mem_map.mp here
      obtain ⟨m', mem', same⟩ := List.mem_map.mp there
      obtain ⟨mem', out⟩ := (sound.reserved m').mp mem'
      exact out (distinct m' mem' m (sound.search m mem) same ▸ mem)
    searches := fun m mem role stays => (searching m mem).mpr ⟨by
      rcases List.mem_pair.mp role with role | role <;> rw [role] <;> trivial, stays⟩
    ideas := fun m mem role there => by simpa [role, Verdict] using ((searching m mem).mp there).1
    ticked := by
      intro m mem paid_
      have ready : m ∈ readyModels known project loaded := by
        simp only [List.mem_append] at mem
        rcases mem with ((((mem | mem) | mem) | mem) | mem) | mem
        · exact mem
        · exact sound.search m mem
        · exact ((sound.reserved m).mp mem).1
        · exact mem_of_ladder mem
        · exact mem_of_notInLadder mem
        · exact (mem_mentor mem).1
      obtain ⟨l, there, rfl⟩ := List.mem_map.mp ready
      obtain ⟨there, allowed⟩ := List.mem_filter.mp there
      simp only [permitted, hosted l there paid_, if_true, Bool.and_eq_true, Option.any_eq_true,
        decide_eq_true_eq] at allowed
      exact allowed.2
    budget := fun spent_ m mem paid_ => ((searching m (sound.search m mem)).mp mem).2 ⟨spent_, paid_⟩
    stay := fun m free_ => by
      refine ⟨fun mem => (unspent.2 m (sound.search m mem)).mpr ?_, fun mem =>
        (searching m (unspent.1.search m mem)).mpr ?_⟩
      · exact ⟨((searching m (sound.search m mem)).mp mem).1, by simp⟩
      · exact ⟨((unspent.2 m (unspent.1.search m mem)).mp mem).1, fun both => free_ both.2⟩
    peers := fun m mem paid_ auto => peer_of_searches paid_ (by
      simpa [auto, Verdict] using ((searching m (sound.search m mem)).mp mem).1)
    ladder := fun none_marked => by
      refine ⟨bestFree _, climb _, if_pos none_marked, fun m best => bestFree_spec best, fun none_ f mem => ?_,
        fun m mem => ?_, climb_pairwise⟩
      · have unrated := List.filter_eq_nil_iff.mp (List.argmax_eq_none.mp none_) f mem
        simpa using unrated
      · obtain ⟨here, -, priced⟩ := mem_climb.mp mem
        exact ⟨mem_paid.mpr here, priced, above_of_mem_climb mem⟩
    freeSearches := by
      rintro ⟨m, mem, rated, auto⟩
      obtain ⟨mem, free_⟩ := mem_free.mp mem
      refine ⟨m, (searching m mem).mpr ⟨?_, fun both => free_ both.2⟩, free_⟩
      rw [auto]
      simp [Verdict, searches, free_, rated] }

/-- The rating table knows nothing, and `a` is a hosted model. -/
def oneHosted : Known := ⟨(· = "a"), fun _ => none, fun _ => none, fun _ => none⟩

/-- A hosted model is ticked and marked, and the budget is spent. -/
theorem marked_obeys : let project : Project := ⟨some ["a", "b"], Dict.empty.set "a" .both⟩
    let loaded : List Loaded := [⟨"a", true, some (some 1), none, some 60⟩, ⟨"b", true, none, none, some 50⟩]
    Obeys oneHosted project loaded true (plan oneHosted project loaded true) :=
  plan_obeys true (by unfold Distinct; with_unfolding_all decide) (by with_unfolding_all decide)

/-- One engine of a model is rated and another is not. -/
def twoEngines : List Loaded := [⟨"b", true, none, none, some 50⟩, ⟨"b", true, none, none, none⟩]

/-- A hosted model has a name that tells of no provider. -/
def unnamed : List Loaded := [⟨"b", true, some (some 1), none, none⟩]

/-- A model is searched with and reserved, or is paid and not ticked. -/
theorem not_obeys :
    ¬Obeys oneHosted ⟨none, Dict.empty⟩ twoEngines false (plan oneHosted ⟨none, Dict.empty⟩ twoEngines false) ∧
      ¬Obeys oneHosted ⟨none, Dict.empty⟩ unnamed false (plan oneHosted ⟨none, Dict.empty⟩ unnamed false) := by
  refine ⟨fun obeys => absurd obeys.once (by with_unfolding_all decide), fun obeys => ?_⟩
  obtain ⟨allowed, none_, -⟩ :=
    obeys.ticked ⟨"b", true, none, none, none, some 1⟩ (by with_unfolding_all decide) rfl
  cases none_

end
end FreeSwarm.Console.SwarmPolicy
