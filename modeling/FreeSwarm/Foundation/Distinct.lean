import Mathlib.Data.List.Dedup
import Mathlib.Data.List.Sort

/-!
# Distinct values in order

The distinct values of a list in order, and their ranks. Values below a cut come first, so that their ranks do not
depend on the others.
-/

namespace FreeSwarm.Foundation

variable {α : Type} [LinearOrder α]

def distinct (l : List α) : List α := l.dedup.insertionSort (· ≤ ·)

variable {l : List α}

@[simp]
theorem mem_distinct {a : α} : a ∈ distinct l ↔ a ∈ l := by
  rw [distinct, List.mem_insertionSort, List.mem_dedup]

theorem distinct_sorted (l : List α) : (distinct l).Pairwise (· < ·) := by
  have nodup : (distinct l).Nodup := (List.perm_insertionSort _ _).nodup_iff.mpr (List.nodup_dedup _)
  exact (List.pairwise_insertionSort (· ≤ ·) _).imp₂ (fun _ _ le ne => lt_of_le_of_ne le ne) nodup

theorem distinct_nodup (l : List α) : (distinct l).Nodup := (distinct_sorted l).imp fun lt => ne_of_lt lt

theorem eq_of_sorted_of_mem_iff {l l' : List α} (sorted : l.Pairwise (· < ·)) (sorted' : l'.Pairwise (· < ·))
    (same : ∀ a, a ∈ l ↔ a ∈ l') : l = l' := by
  have nodup : ∀ {l : List α}, l.Pairwise (· < ·) → l.Nodup := fun sorted => sorted.imp fun lt => ne_of_lt lt
  refine List.Perm.eq_of_pairwise ?_ sorted sorted' ?_
  · exact fun a b _ _ up down => absurd up down.asymm
  · exact (List.perm_ext_iff_of_nodup (nodup sorted) (nodup sorted')).mpr same

/-- The distinct values that meet a condition are those of the values that meet it. -/
theorem distinct_filter (l : List α) (p : α → Bool) : distinct (l.filter p) = (distinct l).filter p := by
  refine eq_of_sorted_of_mem_iff (distinct_sorted _) ((distinct_sorted l).filter _) fun a => ?_
  rw [mem_distinct, List.mem_filter, List.mem_filter, mem_distinct]

theorem filter_lt_eq_take (sorted : l.Pairwise (· < ·)) (cut : α) :
    ∃ k ≤ l.length, l.filter (fun a => a < cut) = l.take k ∧ ∀ a ∈ l.drop k, cut ≤ a := by
  induction l with
  | nil => exact ⟨0, Nat.le_refl _, rfl, fun a mem => absurd mem List.not_mem_nil⟩
  | cons a l ih =>
    obtain ⟨first, rest⟩ := List.pairwise_cons.mp sorted
    by_cases before : a < cut
    · obtain ⟨k, le, same, after⟩ := ih rest
      refine ⟨k + 1, Nat.succ_le_succ le, ?_, after⟩
      rw [List.filter_cons, if_pos (decide_eq_true before), List.take_succ_cons, same]
    · have late : ∀ b ∈ a :: l, cut ≤ b := by
        intro b mem
        rcases List.mem_cons.mp mem with rfl | mem
        · exact not_lt.mp before
        · exact (not_lt.mp before).trans (first b mem).le
      refine ⟨0, Nat.zero_le _, ?_, late⟩
      exact List.filter_eq_nil_iff.mpr fun b mem => by simpa using late b mem

theorem distinct_split {a : α} (mem : a ∈ l) :
    ∃ rest, distinct l = distinct (l.filter fun b => b < a) ++ a :: rest ∧ ∀ b ∈ rest, a < b := by
  obtain ⟨k, le, below, above⟩ := filter_lt_eq_take (distinct_sorted l) a
  have split : distinct l = (distinct l).take k ++ (distinct l).drop k := (List.take_append_drop k _).symm
  have later : a ∈ (distinct l).drop k := by
    have there : a ∈ (distinct l).take k ++ (distinct l).drop k := split ▸ mem_distinct.mpr mem
    refine (List.mem_append.mp there).resolve_left fun early => ?_
    rw [← below] at early
    exact lt_irrefl a (of_decide_eq_true (List.mem_filter.mp early).2)
  have sorted : ((distinct l).drop k).Pairwise (· < ·) := (distinct_sorted l).drop
  cases next : (distinct l).drop k with
  | nil => exact absurd (next ▸ later) List.not_mem_nil
  | cons first rest =>
    rw [next] at later sorted above split
    obtain ⟨least, -⟩ := List.pairwise_cons.mp sorted
    have same : first = a := by
      rcases List.mem_cons.mp later with same | more
      · exact same.symm
      · exact absurd (least a more) (not_lt.mpr (above first List.mem_cons_self))
    subst same
    refine ⟨rest, ?_, least⟩
    rw [distinct_filter, below]
    exact split

theorem idxOf_distinct {a : α} (mem : a ∈ l) :
    (distinct l).idxOf a = (distinct (l.filter fun b => b < a)).length := by
  obtain ⟨rest, split, -⟩ := distinct_split mem
  have out : a ∉ distinct (l.filter fun b => b < a) := by
    rw [mem_distinct, List.mem_filter]
    exact fun mem => lt_irrefl a (of_decide_eq_true mem.2)
  rw [split, List.idxOf_append_of_notMem out, List.idxOf_cons_self, Nat.add_zero]

end FreeSwarm.Foundation
