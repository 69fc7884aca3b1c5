import Mathlib.Data.List.Basic
import Mathlib.Data.List.Infix
import Mathlib.Data.List.Nodup

/-!
# Dictionaries

A dictionary lists its pairs in the order in which their keys came in: an assignment to a key that is
there leaves it in its place. No key is listed twice, so that a pair is listed exactly if its value is
found under its key.
-/

namespace FreeSwarm.Foundation

section
variable {α β γ : Type*} [DecidableEq α]

/-- Assignment to a key: the place of the key if it is there, behind the last one otherwise. -/
def setKey (key : α) (value : β) : List (α × β) → List (α × β)
  | [] => [(key, value)]
  | (k, v) :: rest => if k = key then (k, value) :: rest else (k, v) :: setKey key value rest

def dictOf (pairs : List (α × β)) : List (α × β) :=
  pairs.foldl (fun dict pair => setKey pair.1 pair.2 dict) []

theorem dictOf_concat (pairs : List (α × β)) (key : α) (value : β) :
    dictOf (pairs ++ [(key, value)]) = setKey key value (dictOf pairs) := by
  rw [dictOf, List.foldl_append]
  rfl

attribute [local grind =] setKey

theorem map_setKey (f : β → γ) (key : α) (value : β) (dict : List (α × β)) :
    (setKey key value dict).map (Prod.map id f) = setKey key (f value) (dict.map (Prod.map id f)) := by
  induction dict with
  | nil => rfl
  | cons pair rest ih =>
    obtain ⟨k, v⟩ := pair
    rw [setKey, List.map_cons, setKey.eq_def key (f value)]
    split_ifs with same
    · simp [same]
    · simp [same, ih]

theorem map_dictOf (f : β → γ) (pairs : List (α × β)) :
    (dictOf pairs).map (Prod.map id f) = dictOf (pairs.map (Prod.map id f)) := by
  induction pairs using List.reverseRecOn with
  | nil => rfl
  | append_singleton pairs pair ih =>
    obtain ⟨key, value⟩ := pair
    rw [dictOf_concat, map_setKey, ih, List.map_append, List.map_cons, List.map_nil]
    exact (dictOf_concat _ _ _).symm

theorem map_fst_setKey (key : α) (value : β) (dict : List (α × β)) :
    (setKey key value dict).map Prod.fst =
      if key ∈ dict.map Prod.fst then dict.map Prod.fst else dict.map Prod.fst ++ [key] := by
  induction dict with
  | nil => simp [setKey]
  | cons pair rest ih =>
    obtain ⟨k, v⟩ := pair
    rw [setKey]
    split_ifs with same present present
    · rfl
    · exact absurd (by simp [same]) present
    · rw [List.map_cons, ih, if_pos]
      · rfl
      · rcases List.mem_cons.mp present with same' | later
        · exact absurd same'.symm same
        · exact later
    · rw [List.map_cons, ih, if_neg fun later => present (List.mem_cons_of_mem _ later)]
      rfl

theorem nodup_setKey (key : α) (value : β) {dict : List (α × β)}
    (nodup : (dict.map Prod.fst).Nodup) : ((setKey key value dict).map Prod.fst).Nodup := by
  rw [map_fst_setKey]
  split_ifs with present
  · exact nodup
  · rw [List.nodup_append]
    exact ⟨nodup, by simp, fun k mem k' mem' => by
      obtain rfl := List.mem_singleton.mp mem'
      rintro rfl
      exact present mem⟩

theorem nodup_dictOf (pairs : List (α × β)) : ((dictOf pairs).map Prod.fst).Nodup := by
  induction pairs using List.reverseRecOn with
  | nil => exact List.nodup_nil
  | append_singleton pairs pair ih =>
    obtain ⟨key, value⟩ := pair
    rw [dictOf_concat]
    exact nodup_setKey key value ih

theorem lookup_setKey (key key' : α) (value : β) (dict : List (α × β)) :
    (setKey key value dict).lookup key' = if key' = key then some value else dict.lookup key' := by
  induction dict with
  | nil =>
    rw [setKey, List.lookup_cons]
    by_cases found : key' = key
    · simp [found]
    · simp [found, beq_eq_false_iff_ne.mpr found]
  | cons pair rest ih =>
    obtain ⟨k, v⟩ := pair
    rw [setKey]
    by_cases here : k = key
    · rw [if_pos here, List.lookup_cons, List.lookup_cons, here]
      by_cases found : key' = key
      · simp [found]
      · simp [found, beq_eq_false_iff_ne.mpr found]
    · rw [if_neg here, List.lookup_cons, List.lookup_cons, ih]
      by_cases found : key' = key
      · simp [found, beq_eq_false_iff_ne.mpr (Ne.symm here)]
      · simp [found]

theorem setKey_of_new {key : α} {dict : List (α × β)} (new : key ∉ dict.map Prod.fst) (value : β) :
    setKey key value dict = dict ++ [(key, value)] := by
  induction dict with
  | nil => rfl
  | cons pair rest ih =>
    obtain ⟨k, v⟩ := pair
    rw [List.map_cons, List.mem_cons, not_or] at new
    rw [setKey, if_neg fun same => new.1 same.symm, ih new.2]
    rfl

theorem dictOf_of_nodup {pairs : List (α × β)} (nodup : (pairs.map Prod.fst).Nodup) :
    dictOf pairs = pairs := by
  induction pairs using List.reverseRecOn with
  | nil => rfl
  | append_singleton pairs pair ih =>
    obtain ⟨key, value⟩ := pair
    rw [List.map_append, List.nodup_append] at nodup
    obtain ⟨before, -, apart⟩ := nodup
    rw [dictOf_concat, ih before, setKey_of_new]
    exact fun mem => apart key mem key (by simp) rfl

end

/-! ## Dictionaries with their invariant -/

structure Dict (α β : Type*) where
  entries : List (α × β)
  nodup : (entries.map Prod.fst).Nodup

namespace Dict

/-- Dictionaries are equal when they list the same pairs. -/
instance decidableEq {α β : Type*} [DecidableEq α] [DecidableEq β] : DecidableEq (Dict α β) :=
  fun d d' => decidable_of_iff (d.entries = d'.entries)
    ⟨fun same => by cases d; cases d'; cases same; rfl, fun same => same ▸ rfl⟩

def empty {α β : Type*} : Dict α β := ⟨[], List.nodup_nil⟩

variable {α β : Type*} (d : Dict α β)

/-- The pairs that meet a condition, in their order. -/
def filter (p : α → β → Prop) [∀ key value, Decidable (p key value)] : Dict α β where
  entries := d.entries.filter fun pair => p pair.1 pair.2
  nodup := (List.filter_sublist.map Prod.fst).nodup d.nodup

/-- The first pair that meets a condition. -/
def find? (p : α → β → Prop) [∀ key value, Decidable (p key value)] : Option (α × β) :=
  d.entries.find? fun pair => p pair.1 pair.2

/-- Each value is changed. -/
def map (f : α → β → β) : Dict α β where
  entries := d.entries.map fun pair => (pair.1, f pair.1 pair.2)
  nodup := by
    rw [List.map_map]
    exact d.nodup

variable [DecidableEq α]

def get? (key : α) : Option β := d.entries.lookup key

def set (key : α) (value : β) : Dict α β where
  entries := setKey key value d.entries
  nodup := nodup_setKey key value d.nodup

def pop (key : α) : Dict α β := d.filter fun key' _ => key' ≠ key

def update (new : Dict α β) : Dict α β := new.entries.foldl (fun d pair => d.set pair.1 pair.2) d

variable {d} {key key' : α} {value : β}

theorem mem_entries_iff : (key, value) ∈ d.entries ↔ d.get? key = some value := by
  rw [get?, List.lookup_eq_some_iff]
  constructor
  · intro mem
    obtain ⟨before, after, split⟩ := List.append_of_mem mem
    refine ⟨before, after, split, fun pair earlier => ?_⟩
    have nodup := d.nodup
    rw [split, List.map_append, List.nodup_append] at nodup
    have apart := nodup.2.2 pair.1 (List.mem_map_of_mem earlier) key (by simp)
    exact bne_iff_ne.mpr apart.symm
  · rintro ⟨before, after, split, -⟩
    rw [split]
    simp

@[simp]
theorem get?_empty : (empty : Dict α β).get? key = none := rfl

theorem get?_set : (d.set key value).get? key' = if key' = key then some value else d.get? key' :=
  lookup_setKey key key' value d.entries

@[simp]
theorem get?_set_self : (d.set key value).get? key = some value := by rw [get?_set, if_pos rfl]

theorem get?_set_of_ne (other : key' ≠ key) : (d.set key value).get? key' = d.get? key' := by
  rw [get?_set, if_neg other]

theorem get?_map (f : α → β → β) : (d.map f).get? key = (d.get? key).map (f key) := by
  cases found : d.get? key with
  | none =>
    rw [Option.map_none, ← Option.not_isSome_iff_eq_none, Option.isSome_iff_exists]
    rintro ⟨value, here⟩
    obtain ⟨pair, mem, same⟩ := List.mem_map.mp (mem_entries_iff.mpr here)
    obtain ⟨rfl, -⟩ := Prod.mk.inj same
    rw [mem_entries_iff.mp mem] at found
    nomatch found
  | some value =>
    exact mem_entries_iff.mp (List.mem_map_of_mem (mem_entries_iff.mpr found))

variable {p : α → β → Prop}

theorem get?_filter_eq_some [∀ key value, Decidable (p key value)] :
    (d.filter p).get? key = some value ↔ d.get? key = some value ∧ p key value := by
  rw [← mem_entries_iff, ← mem_entries_iff, filter, List.mem_filter, decide_eq_true_iff]

theorem get?_pop_eq_some : (d.pop key).get? key' = some value ↔ d.get? key' = some value ∧ key' ≠ key :=
  get?_filter_eq_some

/-- What is found among the pairs that do not meet a condition on their keys. -/
theorem get?_filter_key {p : α → Prop} [DecidablePred p] :
    (d.filter fun key _ => p key).get? key = if p key then d.get? key else none := by
  split_ifs with meets
  · ext value
    rw [get?_filter_eq_some]
    exact and_iff_left meets
  · rw [← Option.not_isSome_iff_eq_none, Option.isSome_iff_exists]
    rintro ⟨value, here⟩
    exact meets (get?_filter_eq_some.mp here).2

/-- What is assigned is found, and what was there is found where nothing is assigned. -/
theorem get?_update {new : Dict α β} : (d.update new).get? key = (new.get? key).or (d.get? key) := by
  obtain ⟨pairs, nodup⟩ := new
  show (pairs.foldl (fun d pair => d.set pair.1 pair.2) d).get? key = (pairs.lookup key).or (d.get? key)
  induction pairs generalizing d with
  | nil => rfl
  | cons pair pairs ih =>
    obtain ⟨missing, nodup⟩ := List.nodup_cons.mp nodup
    rw [List.foldl_cons, ih nodup, get?_set, List.lookup_cons]
    by_cases same : key = pair.1
    · -- the key is not assigned again
      have last : pairs.lookup key = none := by
        rw [List.lookup_eq_none_iff]
        intro other mem
        refine bne_iff_ne.mpr fun again => missing ?_
        rw [← same, again]
        exact List.mem_map_of_mem mem
      rw [last, if_pos same, same]
      simp
    · rw [if_neg same, beq_eq_false_iff_ne.mpr same]

/-- The first pair that meets a condition is in the dictionary, and meets it. -/
theorem find?_eq_some [∀ key value, Decidable (p key value)]
    (found : d.find? p = some (key, value)) : d.get? key = some value ∧ p key value :=
  ⟨mem_entries_iff.mp (List.mem_of_find?_eq_some found),
    of_decide_eq_true (List.find?_some (p := fun pair : α × β => p pair.1 pair.2) found)⟩

theorem find?_eq_none [∀ key value, Decidable (p key value)] :
    d.find? p = none ↔ ∀ key value, d.get? key = some value → ¬p key value := by
  rw [find?, List.find?_eq_none]
  constructor
  · intro none_ key value here meets
    exact none_ _ (mem_entries_iff.mpr here) (decide_eq_true meets)
  · intro none_ pair mem meets
    exact none_ pair.1 pair.2 (mem_entries_iff.mp mem) (of_decide_eq_true meets)

end Dict

end FreeSwarm.Foundation
