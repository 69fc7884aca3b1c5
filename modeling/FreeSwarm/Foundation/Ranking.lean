import Mathlib.Data.List.Sort

/-!
# Rankings

A list that is sorted is filtered as well before as after. So the first of a ranking stays the first when
others are taken out.
-/

namespace FreeSwarm.Foundation

variable {α : Type*} {r : α → α → Prop} [DecidableRel r]

theorem orderedInsert_of_forall_rel {a : α} {l : List α} (before : ∀ b ∈ l, r a b) :
    l.orderedInsert r a = a :: l := by
  cases l with
  | nil => rfl
  | cons b l => exact List.orderedInsert_cons_of_le r l (before b List.mem_cons_self)

theorem filter_orderedInsert [IsTrans α r] (p : α → Bool) (a : α) {l : List α} (sorted : l.Pairwise r) :
    (l.orderedInsert r a).filter p =
      if p a then (l.filter p).orderedInsert r a else l.filter p := by
  induction l with
  | nil => cases kept : p a <;> simp [kept]
  | cons b l ih =>
    obtain ⟨first, rest⟩ := List.pairwise_cons.mp sorted
    by_cases before : r a b
    · -- it is before all of them, of which some are left
      have all : ∀ d ∈ (b :: l).filter p, r a d := by
        intro d mem
        cases List.mem_cons.mp (List.mem_of_mem_filter mem) with
        | inl same => rwa [same]
        | inr mem => exact trans_of r before (first d mem)
      rw [List.orderedInsert_cons_of_le r l before, orderedInsert_of_forall_rel all, List.filter_cons]
    · rw [List.orderedInsert_of_not_le r l before, List.filter_cons, List.filter_cons, ih rest]
      split_ifs with keepsB keepsA
      · rw [List.orderedInsert_of_not_le r _ before]
      · rfl
      · rfl
      · rfl

theorem filter_insertionSort [Std.Total r] [IsTrans α r] (p : α → Bool) (l : List α) :
    (l.insertionSort r).filter p = (l.filter p).insertionSort r := by
  induction l with
  | nil => rfl
  | cons a l ih =>
    rw [List.insertionSort_cons, filter_orderedInsert p a (List.pairwise_insertionSort r l), ih,
      List.filter_cons]
    split_ifs
    · rw [List.insertionSort_cons]
    · rfl

/-- The first of a ranking stays the first when others are taken out. -/
theorem insertionSort_filter_take_one [Std.Total r] [IsTrans α r] {p : α → Bool} {l : List α}
    (kept : ∀ a ∈ (l.insertionSort r).take 1, p a = true) :
    ((l.filter p).insertionSort r).take 1 = (l.insertionSort r).take 1 := by
  rw [← filter_insertionSort]
  cases sorted : l.insertionSort r with
  | nil => rfl
  | cons a rest =>
    rw [sorted] at kept
    rw [List.filter_cons, if_pos (kept a (by simp))]
    rfl

end FreeSwarm.Foundation
