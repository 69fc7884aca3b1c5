import FreeSwarm.Foundation.NpFloat
import Mathlib.Data.List.Basic

/-!
# Actions as of the rows of a task

Reported actions are read, sorted and cleared of repeated times, and a row has the last one at or before it. An
infinite initial action is made finite where an action was reported, and stays infinite where none was.
-/

namespace FreeSwarm.TaskKit.Actions

open FreeSwarm.Foundation

variable {α : Type}

/-- A time, in nanoseconds of UTC, with what was reported then. -/
abbrev Report (α : Type) := Int × α

/-- The mask `np.r_[t[1:] != t[:-1], True]`. -/
def lasts : List (Report α) → List (Report α)
  | a :: b :: rest => if b.1 ≠ a.1 then a :: lasts (b :: rest) else lasts (b :: rest)
  | l => l

def readActions (columns : List String) (reports : List (Report NpFloat)) : Except String (List (Report NpFloat)) :=
  if "t" ∉ columns ∨ "pos" ∉ columns then
    .error "actions file needs columns t and pos (write it with ft.report_actions)"
  else .ok (lasts ((reports.filter fun r => r.2.isFinite).mergeSort fun a b => a.1 ≤ b.1))

/-- `np.searchsorted` of sorted times, on the right side. -/
def searchsorted (t : List Int) (key : Int) : Nat := (t.takeWhile (· ≤ key)).length

/-- `np.nan_to_num`. -/
def nanToNum (missing : NpFloat) : NpFloat → NpFloat
  | .nan => missing
  | .inf true => .fin NpFloat.largest
  | .inf false => .fin (-NpFloat.largest)
  | .fin x => .fin x

def alignActions (keys : List Int) (actions : List (Report NpFloat)) (initial : NpFloat) : List NpFloat :=
  if actions = [] then keys.map fun _ => initial
  else keys.map fun key =>
    let idx := searchsorted (actions.map Prod.fst) key
    nanToNum initial (if 0 < idx then (actions.map Prod.snd).getD (idx - 1) initial else initial)

/-! ## What a row is meant to have -/

/-- The finite actions at or before a row. -/
def due (reports : List (Report NpFloat)) (key : Int) : List (Report NpFloat) :=
  reports.filter fun r => r.2.isFinite ∧ r.1 ≤ key

/-- The last one with the greatest time. -/
def latest (reports : List (Report α)) : Option (Report α) :=
  (reports.filter fun r => ∀ s ∈ reports, s.1 ≤ r.1).getLast?

/-- What stands for no action. -/
def start (reports : List (Report NpFloat)) (initial : NpFloat) : NpFloat :=
  if reports.any fun r => r.2.isFinite then nanToNum initial initial else initial

/-! ## Results -/

def Sorted (l : List (Report α)) : Prop := l.Pairwise fun a b => a.1 ≤ b.1

theorem latest_sorted {l : List (Report α)} (sorted : Sorted l) : latest l = l.getLast? := by
  rcases List.eq_nil_or_concat l with rfl | ⟨front, r, rfl⟩
  · rfl
  · rw [List.concat_eq_append] at sorted ⊢
    have top : ∀ s ∈ front ++ [r], s.1 ≤ r.1 := by
      intro s mem
      rcases List.mem_append.mp mem with old | new
      · exact (List.pairwise_append.mp sorted).2.2 s old r (List.mem_singleton_self r)
      · rw [List.mem_singleton.mp new]
    rw [latest, List.filter_append, List.filter_cons_of_pos (by simpa using top)]
    simp

variable (l : List (Report α))

theorem filter_sort (t : Int) :
    (l.mergeSort fun a b => a.1 ≤ b.1).filter (·.1 = t) = l.filter (·.1 = t) := by
  have same : (l.filter (·.1 = t)).Pairwise fun a b => decide (a.1 ≤ b.1) = true :=
    List.pairwise_of_forall_mem_list fun a left b right => by
      have := (List.mem_filter.mp left).2
      have := (List.mem_filter.mp right).2
      simp only [decide_eq_true_eq] at *
      omega
  have inside : (l.filter (·.1 = t)).Sublist (l.mergeSort fun a b => a.1 ≤ b.1) :=
    List.sublist_mergeSort (fun _ _ _ le le' => by simp only [decide_eq_true_eq] at *; omega)
      (fun _ _ => by simp only [Bool.or_eq_true, decide_eq_true_eq]; omega) same List.filter_sublist
  have kept := inside.filter (·.1 = t)
  rw [List.filter_filter] at kept
  simp only [Bool.and_self] at kept
  exact (kept.eq_of_length ((List.mergeSort_perm l _).filter _).length_eq.symm).symm

/-- The greatest time decides, so the order of different times does not. -/
theorem latest_eq {l l' : List (Report α)} (perm : l.Perm l')
    (same : ∀ t, l.filter (·.1 = t) = l'.filter (·.1 = t)) : latest l = latest l' := by
  have equal : ∀ m : List (Report α), (∀ r, r ∈ m ↔ r ∈ l) → ∀ r₀ ∈ l, (∀ s ∈ l, s.1 ≤ r₀.1) →
      (m.filter fun r => ∀ s ∈ m, s.1 ≤ r.1) = m.filter (·.1 = r₀.1) := by
    intro m mem r₀ there most
    refine List.filter_congr fun r here => decide_eq_decide.mpr ⟨fun all => ?_, fun eq s inside => ?_⟩
    · exact Int.le_antisymm (most r ((mem r).mp here)) (all r₀ ((mem r₀).mpr there))
    · exact eq ▸ most s ((mem s).mp inside)
  by_cases some_ : ∃ r₀ ∈ l, ∀ s ∈ l, s.1 ≤ r₀.1
  · obtain ⟨r₀, there, most⟩ := some_
    rw [latest, latest, equal l (fun _ => Iff.rfl) r₀ there most,
      equal l' (fun _ => perm.mem_iff.symm) r₀ there most, same]
  · have empty : ∀ m : List (Report α), (∀ r, r ∈ m ↔ r ∈ l) → (m.filter fun r => ∀ s ∈ m, s.1 ≤ r.1) = [] := by
      intro m mem
      refine List.filter_eq_nil_iff.mpr fun r here all => some_ ⟨r, (mem r).mp here, fun s inside => ?_⟩
      exact of_decide_eq_true all s ((mem s).mpr inside)
    rw [latest, latest, empty l fun _ => Iff.rfl, empty l' fun _ => perm.mem_iff.symm]

theorem getLast?_lasts (key : Int) (l : List (Report α)) :
    ((lasts l).filter (·.1 ≤ key)).getLast? = (l.filter (·.1 ≤ key)).getLast? := by
  induction l using lasts.induct with
  | case1 a b rest ne ih =>
    rw [lasts, if_pos ne, List.filter_cons, List.filter_cons (x := a)]
    split
    · rw [List.getLast?_cons, List.getLast?_cons, ih]
    · exact ih
  | case2 a b rest eq ih =>
    rw [lasts, if_neg eq, ih, List.filter_cons (x := a)]
    rw [not_not] at eq
    split
    next le =>
      rw [List.filter_cons_of_pos (by simpa [eq] using le), List.getLast?_cons_cons]
    next => rfl
  | case3 l short => rw [lasts]; exact short

theorem lasts_sublist : (lasts l).Sublist l := by
  induction l using lasts.induct with
  | case1 a b rest ne ih =>
    rw [lasts, if_pos ne]
    exact ih.cons_cons a
  | case2 a b rest eq ih =>
    rw [lasts, if_neg eq]
    exact ih.cons a
  | case3 l short =>
    rw [lasts]
    exact short

theorem takeWhile_sorted (f : α → Int) (key : Int) {l : List α} (sorted : l.Pairwise fun a b => f a ≤ f b) :
    l.takeWhile (f · ≤ key) = l.filter (f · ≤ key) := by
  induction l with
  | nil => rfl
  | cons a l ih =>
    by_cases le : f a ≤ key
    · rw [List.takeWhile_cons_of_pos (by simpa using le), List.filter_cons_of_pos (by simpa using le), ih sorted.tail]
    · rw [List.takeWhile_cons_of_neg (by simpa using le), List.filter_cons_of_neg (by simpa using le)]
      refine (List.filter_eq_nil_iff.mpr fun b mem => ?_).symm
      have := List.rel_of_pairwise_cons sorted mem
      simp only [decide_eq_true_eq]
      omega

theorem searched (key : Int) {l : List (Report NpFloat)} (sorted : Sorted l) (initial : NpFloat) :
    (if 0 < searchsorted (l.map Prod.fst) key
      then (l.map Prod.snd).getD (searchsorted (l.map Prod.fst) key - 1) initial else initial) =
      ((l.filter (·.1 ≤ key)).getLast?.map Prod.snd).getD initial := by
  have idx : searchsorted (l.map Prod.fst) key = (l.takeWhile (·.1 ≤ key)).length := by
    rw [searchsorted, List.takeWhile_map, List.length_map]
    rfl
  rw [idx, ← takeWhile_sorted Prod.fst key sorted, List.getLast?_eq_getElem?, List.getD_eq_getElem?_getD, List.getElem?_map]
  split
  next some_ =>
    obtain ⟨rest, whole⟩ := List.takeWhile_prefix (l := l) fun r => decide (r.1 ≤ key)
    have inside : (l.takeWhile (·.1 ≤ key) ++ rest)[(l.takeWhile (·.1 ≤ key)).length - 1]? = _ :=
      List.getElem?_append_left (by omega)
    rw [whole] at inside
    rw [inside]
  next none_ =>
    rw [List.eq_nil_of_length_eq_zero (Nat.eq_zero_of_not_pos none_)]
    rfl

theorem sorted_sort : Sorted (l.mergeSort fun a b => a.1 ≤ b.1) :=
  (List.pairwise_mergeSort (fun _ _ _ le le' => by simp only [decide_eq_true_eq] at *; omega)
    (fun _ _ => by simp only [Bool.or_eq_true, decide_eq_true_eq]; omega) l).imp fun le => of_decide_eq_true le

variable {columns : List String} {reports actions : List (Report NpFloat)}

theorem readActions_ok (read : readActions columns reports = .ok actions) :
    actions = lasts ((reports.filter fun r => r.2.isFinite).mergeSort fun a b => a.1 ≤ b.1) := by
  rw [readActions] at read
  split at read
  · cases read
  · exact (Except.ok.inj read).symm

theorem lasts_eq_nil {l : List (Report α)} : lasts l = [] ↔ l = [] := by
  induction l using lasts.induct with
  | case1 a b rest ne ih => rw [lasts, if_pos ne]; simp
  | case2 a b rest eq ih => rw [lasts, if_neg eq, ih]; simp
  | case3 l short => rw [lasts]; exact short

theorem searched_due (read : readActions columns reports = .ok actions) (key : Int) :
    (actions.filter (·.1 ≤ key)).getLast? = latest (due reports key) := by
  set keep := reports.filter fun r => r.2.isFinite with kept
  have dueOf : due reports key = keep.filter (·.1 ≤ key) := by
    rw [kept, List.filter_filter, due]
    exact List.filter_congr fun r _ => by simp [Bool.and_comm]
  rw [readActions_ok read, getLast?_lasts, ← latest_sorted ((sorted_sort keep).filter _), dueOf]
  refine latest_eq ((List.mergeSort_perm keep _).filter _) fun t => ?_
  rw [List.filter_comm, filter_sort, List.filter_comm]

theorem start_nil (read : readActions columns reports = .ok actions) :
    actions = [] ↔ (reports.any fun r => r.2.isFinite) = false := by
  rw [readActions_ok read, lasts_eq_nil, ← List.length_eq_zero_iff, List.length_mergeSort, List.length_eq_zero_iff,
    List.filter_eq_nil_iff]
  simp

theorem nanToNum_finite {initial x : NpFloat} (finite : x.isFinite) : nanToNum initial x = x := by
  cases x with
  | fin x => rfl
  | nan | inf above => cases finite

theorem aligned_eq (keys : List Int) (initial : NpFloat) (read : readActions columns reports = .ok actions) :
    alignActions keys actions initial =
      keys.map fun key => ((latest (due reports key)).map Prod.snd).getD (start reports initial) := by
  have found := fun key => searched_due read key
  rw [alignActions]
  split
  next empty =>
    refine List.map_congr_left fun key _ => ?_
    rw [← found, empty, start, (start_nil read).mp empty]
    rfl
  next some_ =>
    refine List.map_congr_left fun key _ => ?_
    have sorted : Sorted actions := by
      rw [readActions_ok read]
      exact (sorted_sort _).sublist (lasts_sublist _)
    dsimp only
    rw [searched key sorted, found]
    cases here : latest (due reports key) with
    | none =>
      rw [start, if_pos (by simpa using mt (start_nil read).mpr some_)]
      rfl
    | some r =>
      have mem : r ∈ due reports key := (List.mem_filter.mp (List.mem_of_getLast? here)).1
      exact nanToNum_finite (of_decide_eq_true (List.mem_filter.mp mem).2).1

end FreeSwarm.TaskKit.Actions
