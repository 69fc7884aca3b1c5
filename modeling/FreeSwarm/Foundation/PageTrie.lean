import Mathlib.Data.List.Basic
import Mathlib.Data.Nat.Find
import Mathlib.Tactic.Ring

/-!
# Flat page tries

A flat page trie maps a path of whole pages to the slots of its last page. It has no nodes and no
edges, so nothing in it can be split. It says what a compressed prefix tree stands for.
-/

namespace FreeSwarm.Foundation

variable {K V : Type} [DecidableEq K]

abbrev PageTrie (K V : Type) := List K → Option (List V)

namespace PageTrie

def empty : PageTrie K V := fun _ => none

variable (page : Nat) (m : PageTrie K V)

def IsPath (p : List K) : Prop := p ≠ [] ∧ page ∣ p.length

instance (page : Nat) (p : List K) : Decidable (IsPath page p) :=
  inferInstanceAs (Decidable (_ ∧ _))

/-- Every page on the way to an entry has an entry. -/
def Closed : Prop :=
  ∀ p q : List K, IsPath page p → p <+: q → (m q).isSome → (m p).isSome

/-- The length of the longest prefix of a key that has an entry, in whole pages. -/
def longest (ids : List K) : Nat :=
  Nat.findGreatest (fun k => (m (ids.take (k * page))).isSome = true) (ids.length / page) * page

def stored (p : List K) : List V :=
  (List.range (p.length / page)).flatMap fun k => (m (p.take ((k + 1) * page))).getD []

def store (ids : List K) (slots : List V) : PageTrie K V := fun p =>
  (m p).or (if IsPath page p ∧ p <+: ids then some ((slots.drop (p.length - page)).take page) else none)

/-- Take entries off. -/
def drop (gone : List (List K)) : PageTrie K V := fun p =>
  if p ∈ gone then none else m p

variable {page : Nat} {m : PageTrie K V} {ids p q : List K}

omit [DecidableEq K] in
theorem longest_eq {len : Nat} (positive : 0 < page) (whole : page ∣ len) (inside : len ≤ ids.length)
    (here : len ≠ 0 → (m (ids.take len)).isSome)
    (beyond : ∀ k, page ∣ k → len < k → k ≤ ids.length → m (ids.take k) = none) :
    m.longest page ids = len := by
  obtain ⟨k, rfl⟩ := whole
  rw [Nat.mul_comm page k] at inside here beyond ⊢
  rw [longest]
  congr 1
  refine Nat.findGreatest_eq_iff.mpr ⟨(Nat.le_div_iff_mul_le positive).mpr inside, ?_, ?_⟩
  · intro nonzero
    exact here (Nat.mul_ne_zero nonzero positive.ne')
  · intro n more below
    have none := beyond (n * page) (Nat.dvd_mul_left _ _) (Nat.mul_lt_mul_of_pos_right more positive)
      ((Nat.le_div_iff_mul_le positive).mp below)
    simp [none]

omit [DecidableEq K] in
theorem stored_append {a b : List K} (positive : 0 < page) (whole : page ∣ a.length) :
    m.stored page (a ++ b) = m.stored page a ++
      (List.range (b.length / page)).flatMap fun k => (m (a ++ b.take ((k + 1) * page))).getD [] := by
  obtain ⟨n, hn⟩ := whole
  have pages : (a ++ b).length / page = n + b.length / page := by
    rw [List.length_append, hn, Nat.mul_add_div positive]
  have above : a.length / page = n := by rw [hn, Nat.mul_div_cancel_left _ positive]
  rw [stored, pages, List.range_add, List.flatMap_append, stored, above, List.flatMap_map]
  congr 1
  · refine List.flatMap_congr fun k hk => ?_
    have below : (k + 1) * page ≤ a.length := by
      rw [hn, Nat.mul_comm]
      exact Nat.mul_le_mul_left _ (List.mem_range.mp hk)
    rw [List.take_append_of_le_length below]
  · refine List.flatMap_congr fun k _ => ?_
    have whole : (n + k + 1) * page = a.length + (k + 1) * page := by
      rw [hn]
      ring
    rw [whole, List.take_append, List.take_of_length_le (by omega), Nat.add_sub_cancel_left]

theorem store_of_cached {slots : List V} (closed : m.Closed page)
    (cached : (m (ids.take (ids.length / page * page))).isSome) : m.store page ids slots = m := by
  funext p
  rw [store]
  split
  · rename_i inside
    obtain ⟨path, along⟩ := inside
    have entry : (m p).isSome := by
      refine closed p _ path ?_ cached
      refine List.prefix_of_prefix_length_le along (List.take_prefix _ _) ?_
      rw [List.length_take, Nat.min_eq_left (Nat.div_mul_le_self _ _)]
      obtain ⟨k, hk⟩ := path.2
      have short := along.length_le
      rcases Nat.eq_zero_or_pos page with rfl | positive
      · simp_all
      · rw [hk, Nat.mul_comm] at short ⊢
        exact Nat.mul_le_mul_right _ ((Nat.le_div_iff_mul_le positive).mpr short)
    obtain ⟨s, found⟩ := Option.isSome_iff_exists.mp entry
    rw [found, Option.some_or]
  · rw [Option.or_none]

end PageTrie

end FreeSwarm.Foundation
