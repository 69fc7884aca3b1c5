import Mathlib.Data.List.Basic
import Mathlib.Data.List.Lattice
import Mathlib.Data.List.Perm.Basic
import Mathlib.Data.Prod.Lex
import Mathlib.Tactic.Common

/-!
# Worklists

Entries link to the keys of other entries. A worklist takes one key after another out of those that are wanted,
keeps the entry that it finds under a key for the first time, and wants what this entry links to. Which of the wanted
keys comes next is left open. When no key is wanted any more, what is kept is all that can be reached.
-/

namespace FreeSwarm.Foundation

variable {κ β : Type*} [DecidableEq κ]

def entryOf (entries : List (κ × β)) (k : κ) : Option β := entries.lookup k

theorem entryOf_map {γ : Type*} (f : β → γ) (entries : List (κ × β)) (k : κ) :
    entryOf (entries.map fun e => (e.1, f e.2)) k = (entryOf entries k).map f := by
  induction entries with
  | nil => rfl
  | cons e entries ih =>
    rw [entryOf, entryOf, List.map_cons, List.lookup_cons, List.lookup_cons]
    cases k == e.1 with
    | true => rfl
    | false => exact ih

theorem mem_of_entryOf {entries : List (κ × β)} {k : κ} {v : β} (found : entryOf entries k = some v) :
    (k, v) ∈ entries := by
  obtain ⟨front, back, rfl, -⟩ := List.lookup_eq_some_iff.mp found
  simp

/-- The keys of entries that can be reached from those that are wanted first. -/
inductive Reached (entries : List (κ × β)) (links : β → List κ) (start : List κ) : κ → Prop
  | first {k : κ} {v : β} : k ∈ start → entryOf entries k = some v → Reached entries links start k
  | next {k k' : κ} {v v' : β} : Reached entries links start k → entryOf entries k = some v → k' ∈ links v →
      entryOf entries k' = some v' → Reached entries links start k'

/-- What a worklist has found so far. -/
structure Work (κ β : Type*) where
  wanted : List κ
  out : List (κ × β)

namespace Work

variable {entries : List (κ × β)} {links : β → List κ} {start : List κ}

def keys (w : Work κ β) : List κ := w.out.map Prod.fst

/-- One of the wanted keys is looked up. -/
def step (entries : List (κ × β)) (links : β → List κ) (i : Nat) (w : Work κ β) : Work κ β :=
  match w.wanted[i % w.wanted.length]? with
  | none => w
  | some k =>
    let rest := w.wanted.eraseIdx (i % w.wanted.length)
    match entryOf entries k with
    | none => { w with wanted := rest }
    | some v =>
      if k ∈ w.keys then { w with wanted := rest }
      else
        let out := w.out ++ [(k, v)]
        ⟨rest ∪ (links v).filter fun k' => k' ∈ entries.map Prod.fst ∧ k' ∉ out.map Prod.fst, out⟩

theorem step_cases (entries : List (κ × β)) (links : β → List κ) (i : Nat) {w : Work κ β} (some_ : w.wanted ≠ []) :
    ∃ k rest, (k :: rest).Perm w.wanted ∧
      ((entryOf entries k = none ∨ k ∈ w.keys) ∧ w.step entries links i = ⟨rest, w.out⟩ ∨
        ∃ v, entryOf entries k = some v ∧ k ∉ w.keys ∧ w.step entries links i =
          ⟨rest ∪ (links v).filter fun k' => k' ∈ entries.map Prod.fst ∧ k' ∉ (w.out ++ [(k, v)]).map Prod.fst,
            w.out ++ [(k, v)]⟩) := by
  have inside : i % w.wanted.length < w.wanted.length := Nat.mod_lt _ (List.length_pos_iff.mpr some_)
  refine ⟨w.wanted[i % w.wanted.length], _, List.getElem_cons_eraseIdx_perm inside, ?_⟩
  rw [step, List.getElem?_eq_getElem inside]
  cases found : entryOf entries w.wanted[i % w.wanted.length] with
  | none => exact .inl ⟨.inl rfl, by simp only [found]⟩
  | some v =>
    by_cases kept : w.wanted[i % w.wanted.length] ∈ w.keys
    · exact .inl ⟨.inr kept, by simp only [found, if_pos kept]⟩
    · exact .inr ⟨v, rfl, kept, by simp only [found, if_neg kept]⟩

variable {w : Work κ β}

omit [DecidableEq κ] in
theorem mem_keys_concat {k k' : κ} {v : β} :
    k' ∈ (w.out ++ [(k, v)]).map Prod.fst ↔ k' ∈ w.keys ∨ k' = k := by
  simp [keys]

def left (entries : List (κ × β)) (w : Work κ β) : Nat := (entries.filter fun e => e.1 ∉ w.keys).length

theorem step_lt (i : Nat) {w : Work κ β} (some_ : w.wanted ≠ []) :
    Prod.Lex (· < ·) (· < ·) ((w.step entries links i).left entries, (w.step entries links i).wanted.length)
      (w.left entries, w.wanted.length) := by
  obtain ⟨k, rest, perm, ⟨-, is_⟩ | ⟨v, found, new, is_⟩⟩ := step_cases entries links i some_
  · rw [is_, ← perm.length_eq]
    exact .right _ (by simp)
  · rw [is_]
    refine .left _ _ ?_
    have fewer : entries.filter (fun e => e.1 ∉ (w.out ++ [(k, v)]).map Prod.fst) =
        (entries.filter fun e => e.1 ∉ w.keys).filter fun e => e.1 ≠ k := by
      rw [List.filter_filter]
      refine List.filter_congr fun e _ => Bool.eq_iff_iff.mpr ?_
      simp only [Bool.and_eq_true, decide_eq_true_eq, mem_keys_concat, not_or, and_comm]
    rw [left, left, keys, fewer]
    exact List.length_filter_lt_length_iff_exists.mpr
      ⟨(k, v), List.mem_filter.mpr ⟨mem_of_entryOf found, by simpa using new⟩, by simp⟩

/-- The entries that are kept when no key is wanted any more. `order` says which of the wanted keys comes next. -/
def run (entries : List (κ × β)) (links : β → List κ) (order : Nat → Nat) (n : Nat) (w : Work κ β) :
    List (κ × β) :=
  if w.wanted = [] then w.out else run entries links order (n + 1) (w.step entries links (order n))
termination_by (w.left entries, w.wanted.length)
decreasing_by exact step_lt _ ‹_›

/-! ## What is kept -/

/-- What is kept and wanted can be reached, and what can be reached is kept or still comes. -/
structure Ok (entries : List (κ × β)) (links : β → List κ) (start : List κ) (w : Work κ β) : Prop where
  wanted : ∀ k ∈ w.wanted, ∀ v, entryOf entries k = some v → Reached entries links start k
  out : ∀ k v, (k, v) ∈ w.out → entryOf entries k = some v ∧ Reached entries links start k
  first : ∀ k ∈ start, ∀ v, entryOf entries k = some v → k ∈ w.wanted ∨ k ∈ w.keys
  next : ∀ k v k' v', (k, v) ∈ w.out → k' ∈ links v → entryOf entries k' = some v' → k' ∈ w.wanted ∨ k' ∈ w.keys

theorem ok_start (entries : List (κ × β)) (links : β → List κ) (start : List κ) :
    Ok entries links start ⟨start, []⟩ where
  wanted _ mem _ found := .first mem found
  out _ _ mem := absurd mem List.not_mem_nil
  first _ mem _ _ := .inl mem
  next _ _ _ _ mem := absurd mem List.not_mem_nil

theorem Ok.drop (ok : Ok entries links start w) {k : κ} {rest : List κ}
    (perm : (k :: rest).Perm w.wanted) (done : entryOf entries k = none ∨ k ∈ w.keys) :
    Ok entries links start ⟨rest, w.out⟩ := by
  have still : ∀ k' v', entryOf entries k' = some v' → k' ∈ w.wanted ∨ k' ∈ w.keys → k' ∈ rest ∨ k' ∈ w.keys := by
    intro k' v' found which
    rcases which with mem | mem
    · rcases List.mem_cons.mp (perm.mem_iff.mpr mem) with rfl | mem
      · rcases done with none_ | kept
        · rw [none_] at found
          exact absurd found (by simp)
        · exact .inr kept
      · exact .inl mem
    · exact .inr mem
  exact {
    wanted := fun k' mem => ok.wanted k' (perm.mem_iff.mp (List.mem_cons_of_mem _ mem))
    out := ok.out
    first := fun k' mem v' found => still k' v' found (ok.first k' mem v' found)
    next := fun k' v' k'' v'' mem link found => still k'' v'' found (ok.next k' v' k'' v'' mem link found) }

theorem Ok.keep (ok : Ok entries links start w) {k : κ} {v : β} {rest more : List κ}
    (perm : (k :: rest).Perm w.wanted) (found : entryOf entries k = some v)
    (mem_more : ∀ k', k' ∈ more ↔ k' ∈ links v ∧ k' ∈ entries.map Prod.fst ∧ k' ∉ (w.out ++ [(k, v)]).map Prod.fst) :
    Ok entries links start ⟨rest ∪ more, w.out ++ [(k, v)]⟩ := by
  have here : Reached entries links start k :=
    ok.wanted k (perm.mem_iff.mp List.mem_cons_self) v found
  have still : ∀ k', k' ∈ w.wanted ∨ k' ∈ w.keys →
      k' ∈ rest ∪ more ∨ k' ∈ (w.out ++ [(k, v)]).map Prod.fst := by
    intro k' which
    rcases which with mem | mem
    · rcases List.mem_cons.mp (perm.mem_iff.mpr mem) with rfl | mem
      · exact .inr (mem_keys_concat.mpr (.inr rfl))
      · exact .inl (List.mem_union_iff.mpr (.inl mem))
    · exact .inr (mem_keys_concat.mpr (.inl mem))
  constructor
  · intro k' mem v' found'
    rcases List.mem_union_iff.mp mem with mem | mem
    · exact ok.wanted k' (perm.mem_iff.mp (List.mem_cons_of_mem _ mem)) v' found'
    · exact .next here found ((mem_more k').mp mem).1 found'
  · intro k' v' mem
    rcases List.mem_append.mp mem with mem | mem
    · exact ok.out k' v' mem
    · obtain ⟨rfl, rfl⟩ := Prod.mk.inj (List.mem_singleton.mp mem)
      exact ⟨found, here⟩
  · exact fun k' mem v' found' => still k' (ok.first k' mem v' found')
  · intro k' v' k'' v'' mem link found''
    rcases List.mem_append.mp mem with mem | mem
    · exact still k'' (ok.next k' v' k'' v'' mem link found'')
    · obtain ⟨rfl, rfl⟩ := Prod.mk.inj (List.mem_singleton.mp mem)
      by_cases kept : k'' ∈ (w.out ++ [(k', v')]).map Prod.fst
      · exact .inr kept
      · exact .inl (List.mem_union_iff.mpr (.inr
          ((mem_more k'').mpr ⟨link, List.mem_map.mpr ⟨_, mem_of_entryOf found'', rfl⟩, kept⟩)))

theorem Ok.step (ok : Ok entries links start w) (some_ : w.wanted ≠ []) (i : Nat) :
    Ok entries links start (w.step entries links i) := by
  obtain ⟨k, rest, perm, ⟨done, is_⟩ | ⟨v, found, new, is_⟩⟩ :=
    step_cases entries links i some_
  · rw [is_]
    exact ok.drop perm done
  · rw [is_]
    exact ok.keep perm found fun k' => by simp

theorem Ok.run (ok : Ok entries links start w) (order : Nat → Nat) (n : Nat) :
    Ok entries links start ⟨[], w.run entries links order n⟩ := by
  induction n, w using Work.run.induct entries links order with
  | case1 n w none_ =>
    rw [Work.run, if_pos none_]
    exact none_ ▸ ok
  | case2 n w some_ ih =>
    rw [Work.run, if_neg some_]
    exact ih (ok.step some_ (order n))

end Work

variable {entries : List (κ × β)} {links : β → List κ} {start : List κ}

theorem mem_run_iff (order : Nat → Nat) {k : κ} :
    k ∈ ((Work.mk start []).run entries links order 0).map Prod.fst ↔ Reached entries links start k := by
  have ok := (Work.ok_start entries links start).run order 0
  constructor
  · intro mem
    obtain ⟨⟨k', v⟩, there, rfl⟩ := List.mem_map.mp mem
    exact (ok.out k' v there).2
  · intro reached
    induction reached with
    | first mem found => exact (ok.first _ mem _ found).resolve_left List.not_mem_nil
    | next _ found link found' ih =>
      obtain ⟨⟨k', v⟩, there, same⟩ := List.mem_map.mp ih
      obtain rfl : k' = _ := same
      obtain rfl := Option.some.inj ((ok.out _ v there).1.symm.trans found)
      exact (ok.next _ v _ _ there link found').resolve_left List.not_mem_nil

end FreeSwarm.Foundation
