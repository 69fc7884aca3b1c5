import Mathlib.Algebra.BigOperators.Group.List.Basic
import Mathlib.Data.List.Perm.Basic

/-!
# Groups of a list

The members of a list by a key. Groups by distinct keys that cover a list hold each of its members once.
-/

namespace FreeSwarm.Foundation

variable {α κ : Type} [DecidableEq κ] {key : α → κ} {keys : List κ}

theorem flatten_groups_perm (nodup : keys.Nodup) (l : List α) (cover : ∀ a ∈ l, key a ∈ keys) :
    ((keys.map fun k => l.filter fun a => key a = k).flatten).Perm l := by
  induction keys generalizing l with
  | nil =>
    rw [List.eq_nil_iff_forall_not_mem.mpr fun a mem => List.not_mem_nil (cover a mem)]
    exact .nil
  | cons k keys ih =>
    obtain ⟨out, nodup⟩ := List.nodup_cons.mp nodup
    have rest := ih nodup (l.filter fun a => !decide (key a = k)) fun a mem => by
      obtain ⟨mem, ne⟩ := List.mem_filter.mp mem
      exact (List.mem_cons.mp (cover a mem)).resolve_left (by simpa using ne)
    have same : (keys.map fun k' => (l.filter fun a => !decide (key a = k)).filter fun a => key a = k') =
        keys.map fun k' => l.filter fun a => key a = k' := by
      refine List.map_congr_left fun k' mem => ?_
      rw [List.filter_filter]
      refine List.filter_congr fun a _ => ?_
      by_cases is_ : key a = k'
      · have ne : k' ≠ k := fun eq => out (eq ▸ mem)
        simp [is_, ne]
      · simp [is_]
    rw [same] at rest
    rw [List.map_cons, List.flatten_cons]
    exact (rest.append_left _).trans (List.filter_append_perm _ l)

theorem sum_groups {M : Type} [AddCommMonoid M] (nodup : keys.Nodup) {l : List α} (cover : ∀ a ∈ l, key a ∈ keys)
    (f : α → M) : (keys.map fun k => ((l.filter fun a => key a = k).map f).sum).sum = (l.map f).sum := by
  have parts := ((flatten_groups_perm nodup l cover).map f).sum_eq
  rwa [List.map_flatten, List.sum_flatten, List.map_map, List.map_map] at parts

end FreeSwarm.Foundation
