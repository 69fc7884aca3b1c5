import Mathlib.Data.List.Basic
import Mathlib.Data.List.Perm.Basic
import Mathlib.Order.Basic

/-!
# Taking a least element

A heap is used only to take an element with a least key again and again. Which one of several least
elements comes first is left to a tie-breaking choice, so that what is proved holds for every heap
implementation.
-/

namespace FreeSwarm.Foundation

variable {α : Type*} [DecidableEq α]

def leastOf (key : α → Nat) (heap : List α) : List α :=
  heap.filter fun x => heap.all fun y => decide (key x ≤ key y)

/-- Take an element with a least key; `tie` chooses among several. -/
def heappop (key : α → Nat) (tie : List α → Nat) (heap : List α) : Option (α × List α) :=
  let least := leastOf key heap
  (least[tie heap % least.length]?).map fun x => (x, heap.erase x)

variable {key : α → Nat}

omit [DecidableEq α] in
theorem leastOf_ne_nil {heap : List α} (nonempty : heap ≠ []) :
    leastOf key heap ≠ [] := by
  have least : ∃ x ∈ heap, ∀ y ∈ heap, key x ≤ key y := by
    induction heap with
    | nil => exact absurd rfl nonempty
    | cons a heap ih =>
      by_cases empty : heap = []
      · exact ⟨a, by simp, by simp [empty]⟩
      · obtain ⟨x, mem, below⟩ := ih empty
        rcases Nat.le_total (key a) (key x) with first | later
        · refine ⟨a, by simp, fun y hy => ?_⟩
          rcases List.mem_cons.mp hy with rfl | hy
          · exact Nat.le_refl _
          · exact Nat.le_trans first (below y hy)
        · refine ⟨x, by simp [mem], fun y hy => ?_⟩
          rcases List.mem_cons.mp hy with rfl | hy
          · exact later
          · exact below y hy
  obtain ⟨x, mem, below⟩ := least
  exact List.ne_nil_of_mem (List.mem_filter.mpr ⟨mem, by simpa using below⟩)

theorem heappop_isSome {tie : List α → Nat} {heap : List α}
    (nonempty : heap ≠ []) : ∃ x rest, heappop key tie heap = some (x, rest) := by
  have positive : 0 < (leastOf key heap).length :=
    List.length_pos_iff.mpr (leastOf_ne_nil nonempty)
  have inside := Nat.mod_lt (tie heap) positive
  let x := (leastOf key heap)[tie heap % (leastOf key heap).length]
  have taken : heappop key tie heap = some (x, heap.erase x) := by
    simp only [heappop, List.getElem?_eq_getElem inside, Option.map_some]
    rfl
  exact ⟨x, heap.erase x, taken⟩

theorem heappop_perm {tie : List α → Nat} {heap rest : List α} {x : α}
    (taken : heappop key tie heap = some (x, rest)) : heap.Perm (x :: rest) := by
  simp only [heappop, Option.map_eq_some_iff, Prod.mk.injEq] at taken
  obtain ⟨y, found, rfl, rfl⟩ := taken
  have mem := List.mem_of_getElem? found
  exact List.perm_cons_erase (List.mem_of_mem_filter mem)

end FreeSwarm.Foundation
