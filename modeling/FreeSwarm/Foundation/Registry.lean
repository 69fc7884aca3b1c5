import FreeSwarm.Foundation.Dict
import FreeSwarm.Foundation.Machine

/-!
# Registries of jobs

Each job is about a key, and a registry tells under a key which job was registered last. As long as every
job that goes on is the one that is registered, no two go on for one key. A request that looks into the
registry and registers its own job later does so blindly if another one was registered in between.
-/

namespace FreeSwarm.Foundation

variable {J K : Type*} {key : J → K} {runs : J → Prop} {jobs : List J} {i : Nat} {job job' : J}

variable (key runs jobs) in
/-- No two jobs of a key go on. -/
def OneRuns : Prop :=
  ∀ (i j : Nat) (a b : J), jobs[i]? = some a → jobs[j]? = some b → runs a → runs b →
    key a = key b → i = j

variable (key runs jobs) in
/-- A job of the key that goes on was registered from some place on. -/
def Since (since : Nat) (k : K) : Prop :=
  ∀ (i : Nat) (job : J), jobs[i]? = some job → runs job → key job = k → since ≤ i

variable (key runs jobs) in
/-- No job of the key that was registered from some place on goes on. -/
def Clear (since : Nat) (k : K) : Prop :=
  ∀ (i : Nat) (job : J), jobs[i]? = some job → since ≤ i → key job = k → ¬runs job

theorem getElem?_concat_cases (there : (jobs ++ [job])[i]? = some job') :
    jobs[i]? = some job' ∨ i = jobs.length ∧ job' = job := by
  rcases Nat.lt_trichotomy i jobs.length with inside | rfl | beyond
  · rw [List.getElem?_append_left inside] at there
    exact .inl there
  · rw [List.getElem?_concat_length] at there
    exact .inr ⟨rfl, (Option.some.inj there).symm⟩
  · rw [List.getElem?_append_right beyond.le, List.getElem?_eq_none (by simp; omega)] at there
    nomatch there

theorem getElem?_set_cases {j : Nat} (there : (jobs.set j job)[i]? = some job') :
    jobs[i]? = some job' ∧ i ≠ j ∨ i = j ∧ job' = job := by
  by_cases same : i = j
  · subst same
    have inside : i < jobs.length := by
      have := (List.getElem?_eq_some_iff.mp there).1
      rwa [List.length_set] at this
    rw [List.getElem?_set_self inside] at there
    exact .inr ⟨rfl, (Option.some.inj there).symm⟩
  · rw [List.getElem?_set_ne (Ne.symm same)] at there
    exact .inl ⟨there, same⟩

/-- A request that looks into the registry when no job of its key goes on sees all that come later. -/
theorem since_of_none {k : K} {since : Nat}
    (none_ : ∀ (i : Nat) (job : J), jobs[i]? = some job → key job = k → ¬runs job) :
    Since key runs jobs since k :=
  fun i job there goes same => absurd goes (none_ i job there same)

variable {since : Nat}

/-- What goes on and what was registered later exclude each other exactly if nothing goes on. -/
theorem Since.none_of_clear {k : K} (sees : Since key runs jobs since k)
    (clear : Clear key runs jobs since k) (there : jobs[i]? = some job) (same : key job = k) :
    ¬runs job := fun goes => clear i job there (sees i job there goes same) same goes

theorem Since.concat {k : K} (sees : Since key runs jobs since k)
    (inside : since ≤ jobs.length) : Since key runs (jobs ++ [job]) since k := by
  intro i other there goes same
  rcases getElem?_concat_cases there with before | ⟨rfl, -⟩
  · exact sees i other before goes same
  · exact inside

theorem Since.ends {k : K} (sees : Since key runs jobs since k) (over_ : ¬runs job') :
    Since key runs (jobs.set i job') since k := by
  intro j other there goes same
  rcases getElem?_set_cases there with ⟨before, -⟩ | ⟨rfl, rfl⟩
  · exact sees j other before goes same
  · exact absurd goes over_

theorem not_oneRuns_concat (clear : ¬Clear key runs jobs since (key job))
    (goes : runs job) : ¬OneRuns key runs (jobs ++ [job]) := by
  intro one
  apply clear
  intro i other there _ same goes'
  have inside := (List.getElem?_eq_some_iff.mp there).1
  have place := one i jobs.length other job (by rw [List.getElem?_append_left inside]; exact there)
    List.getElem?_concat_length goes' goes same
  omega

section

variable [DecidableEq K] {registry : Dict K Nat}

variable (key runs jobs registry) in
def Registered : Prop :=
  ∀ (i : Nat) (job : J), jobs[i]? = some job → runs job → registry.get? (key job) = some i

theorem Registered.oneRuns (registered : Registered key runs jobs registry) :
    OneRuns key runs jobs := by
  intro i j a b first second goes goes' same
  have place := registered i a first goes
  rw [same, registered j b second goes'] at place
  exact (Option.some.inj place).symm

theorem registered_nil : Registered key runs [] (Dict.empty : Dict K Nat) := fun _ _ there _ =>
  nomatch there

theorem Registered.concat (registered : Registered key runs jobs registry)
    (none_ : ∀ (i : Nat) (other : J), jobs[i]? = some other → key other = key job → ¬runs other) :
    Registered key runs (jobs ++ [job]) (registry.set (key job) jobs.length) := by
  intro i other there goes
  rcases getElem?_concat_cases there with before | ⟨rfl, rfl⟩
  · have apart : key other ≠ key job := fun same => none_ i other before same goes
    rw [Dict.get?_set_of_ne apart]
    exact registered i other before goes
  · exact Dict.get?_set_self

theorem Registered.ends (registered : Registered key runs jobs registry) (over_ : ¬runs job') :
    Registered key runs (jobs.set i job') registry := by
  intro j other there goes
  rcases getElem?_set_cases there with ⟨before, -⟩ | ⟨rfl, rfl⟩
  · exact registered j other before goes
  · exact absurd goes over_

theorem Registered.pops (registered : Registered key runs jobs registry)
    (there : jobs[i]? = some job) (goes : runs job) (over_ : ¬runs job') :
    Registered key runs (jobs.set i job') (registry.pop (key job)) := by
  intro j other there' goes'
  rcases getElem?_set_cases there' with ⟨before, apart⟩ | ⟨rfl, rfl⟩
  · refine Dict.get?_pop_eq_some.mpr ⟨registered j other before goes', fun same => apart ?_⟩
    exact registered.oneRuns j i other job before there goes' goes same
  · exact absurd goes' over_

/-! ## Requests -/

variable {R : Type*} {asks : R → K} {looked : R → Option Nat} {requests : List R} {r r' : R}

variable (key runs jobs registry asks looked requests) in
/-- Every job that goes on is registered, and each request that looked knows of those that were registered
since. -/
structure Watched : Prop where
  registered : Registered key runs jobs registry
  knows : ∀ r ∈ requests, ∀ since, looked r = some since →
    since ≤ jobs.length ∧ Since key runs jobs since (asks r)

theorem watched_nil : Watched key runs [] (Dict.empty : Dict K Nat) asks looked [] :=
  ⟨registered_nil, fun _ mem => nomatch mem⟩

namespace Watched
variable (watched : Watched key runs jobs registry asks looked requests)
include watched

theorem ask (passed : ∀ since, looked r = some since →
      since = jobs.length ∧ Since key runs jobs since (asks r)) :
    Watched key runs jobs registry asks looked (requests ++ [r]) := by
  refine ⟨watched.registered, fun other mem since has => ?_⟩
  rcases mem_concat mem with before | rfl
  · exact watched.knows other before since has
  · exact (passed since has).imp_left le_of_eq

theorem move (there : requests[i]? = some r) (same : asks r' = asks r)
    (later : ∀ since, looked r' = some since → looked r = some since) :
    Watched key runs jobs registry asks looked (requests.set i r') := by
  refine ⟨watched.registered, fun other mem since has => ?_⟩
  rcases List.mem_or_eq_of_mem_set mem with before | rfl
  · exact watched.knows other before since has
  · rw [same]
    exact watched.knows r (List.mem_of_getElem? there) since (later since has)

theorem start (there : requests[i]? = some r) (has : looked r = some since) (same : key job = asks r)
    (clear : Clear key runs jobs since (asks r)) (over_ : looked r' = none) :
    Watched key runs (jobs ++ [job]) (registry.set (key job) jobs.length) asks looked
      (requests.set i r') where
  registered := by
    have sees := (watched.knows r (List.mem_of_getElem? there) since has).2
    rw [← same] at clear sees
    exact watched.registered.concat fun i other here alike => sees.none_of_clear clear here alike
  knows other mem since' has' := by
    rcases List.mem_or_eq_of_mem_set mem with before | rfl
    · obtain ⟨inside, sees⟩ := watched.knows other before since' has'
      rw [List.length_append]
      exact ⟨Nat.le_add_right_of_le inside, sees.concat inside⟩
    · nomatch over_.symm.trans has'

theorem ends {registry' : Dict K Nat} (registered : Registered key runs (jobs.set i job') registry')
    (over_ : ¬runs job') : Watched key runs (jobs.set i job') registry' asks looked requests := by
  refine ⟨registered, fun r mem since has => ?_⟩
  rw [List.length_set]
  exact (watched.knows r mem since has).imp_right fun sees => sees.ends over_

end Watched

end

end FreeSwarm.Foundation
