import Mathlib.Data.List.Nodup
import Mathlib.Logic.Function.Basic

/-!
# Indexed assignment

An array that is only read and assigned by index is a function. `scatter` is the assignment
`f[idx] = vals` and `fill` the assignment `f[idx] = v`. When no index repeats, the order of the
single assignments does not matter, which is what the lemmas state.
-/

namespace FreeSwarm.Foundation

variable {α β : Type*} [DecidableEq α]

/-- Assign the values to the indices one after another; extra indices or values are ignored. -/
def scatter (f : α → β) : List α → List β → α → β
  | i :: idx, v :: vals => scatter (Function.update f i v) idx vals
  | _, _ => f

/-- Assign one value to every index of a list. -/
def fill (f : α → β) (idx : List α) (v : β) : α → β := fun x => if x ∈ idx then v else f x

@[simp] theorem scatter_nil (f : α → β) (vals : List β) : scatter f [] vals = f := by
  cases vals <;> rfl

@[simp] theorem scatter_cons (f : α → β) (i : α) (idx : List α) (v : β) (vals : List β) :
    scatter f (i :: idx) (v :: vals) = scatter (Function.update f i v) idx vals := rfl

variable {f : α → β} {idx : List α} {vals : List β}

variable {x : α}

theorem scatter_of_not_mem
    (outside : x ∉ idx) : scatter f idx vals x = f x := by
  induction idx generalizing f vals with
  | nil => simp
  | cons i idx ih =>
    cases vals with
    | nil => rfl
    | cons v vals =>
      have hx := (not_or.mp (List.mem_cons.not.mp outside))
      rw [scatter_cons, ih hx.2, Function.update_of_ne hx.1]

theorem scatter_append {idx₁ idx₂ : List α} {vals₁ vals₂ : List β}
    (same : idx₁.length = vals₁.length) :
    scatter f (idx₁ ++ idx₂) (vals₁ ++ vals₂) = scatter (scatter f idx₁ vals₁) idx₂ vals₂ := by
  induction idx₁ generalizing f vals₁ with
  | nil =>
    obtain rfl : vals₁ = [] := List.length_eq_zero_iff.mp same.symm
    simp
  | cons i idx₁ ih =>
    cases vals₁ with
    | nil => simp at same
    | cons v vals₁ => simpa using ih (by simpa using same)

/-- Assigning a function of the index, where no index repeats, stores that function. -/
theorem scatter_map_of_mem {g : α → β}
    (distinct : idx.Nodup) (inside : x ∈ idx) : scatter f idx (idx.map g) x = g x := by
  induction idx generalizing f with
  | nil => simp at inside
  | cons i idx ih =>
    obtain ⟨fresh, rest⟩ := List.nodup_cons.mp distinct
    rcases List.mem_cons.mp inside with rfl | later
    · rw [List.map_cons, scatter_cons, scatter_of_not_mem fresh, Function.update_self]
    · rw [List.map_cons, scatter_cons, ih rest later]

theorem scatter_of_getElem? {k : Nat} {v : β}
    (distinct : idx.Nodup) (index : idx[k]? = some x) (value : vals[k]? = some v) :
    scatter f idx vals x = v := by
  induction idx generalizing f vals k with
  | nil => simp at index
  | cons i idx ih =>
    obtain ⟨fresh, rest⟩ := List.nodup_cons.mp distinct
    cases vals with
    | nil => simp at value
    | cons w vals =>
      cases k with
      | zero =>
        obtain rfl : i = x := by simpa using index
        obtain rfl : w = v := by simpa using value
        rw [scatter_cons, scatter_of_not_mem fresh, Function.update_self]
      | succ k =>
        rw [scatter_cons]
        exact ih rest (by simpa using index) (by simpa using value)

theorem fill_of_mem {v : β} (inside : x ∈ idx) :
    fill f idx v x = v := if_pos inside

theorem fill_of_not_mem {v : β} (outside : x ∉ idx) :
    fill f idx v x = f x := if_neg outside

theorem fill_append (f : α → β) (idx₁ idx₂ : List α) (v : β) :
    fill f (idx₁ ++ idx₂) v = fill (fill f idx₁ v) idx₂ v := by
  funext x
  by_cases second : x ∈ idx₂
  · rw [fill_of_mem (List.mem_append_right _ second), fill_of_mem second]
  · by_cases first : x ∈ idx₁
    · rw [fill_of_mem (List.mem_append_left _ first), fill_of_not_mem second, fill_of_mem first]
    · rw [fill_of_not_mem (by simp [first, second]), fill_of_not_mem second,
        fill_of_not_mem first]

theorem scatter_congr_at {f g : α → β} {idx : List α} {vals : List β} (same : f x = g x) :
    scatter f idx vals x = scatter g idx vals x := by
  induction idx generalizing f g vals with
  | nil => simpa using same
  | cons i idx ih =>
    cases vals with
    | nil => exact same
    | cons v vals =>
      rw [scatter_cons, scatter_cons]
      refine ih ?_
      by_cases here : x = i
      · rw [here, Function.update_self, Function.update_self]
      · rw [Function.update_of_ne here, Function.update_of_ne here, same]

theorem fill_scatter_comm {idx filled : List α} {vals : List β} {v : β}
    (apart : idx.Disjoint filled) :
    fill (scatter f idx vals) filled v = scatter (fill f filled v) idx vals := by
  funext x
  by_cases inside : x ∈ filled
  · rw [fill_of_mem inside, scatter_of_not_mem fun assigned => apart assigned inside,
      fill_of_mem inside]
  · rw [fill_of_not_mem inside]
    exact scatter_congr_at (fill_of_not_mem inside).symm

theorem scatter_self
    (same : ∀ p ∈ idx.zip vals, f p.1 = p.2) : scatter f idx vals = f := by
  induction idx generalizing vals with
  | nil => simp
  | cons i idx ih =>
    cases vals with
    | nil => rfl
    | cons v vals =>
      have here : f i = v := same (i, v) (by simp)
      rw [scatter_cons, ← here, Function.update_eq_self]
      exact ih fun p hp => same p (by simp [hp])

end FreeSwarm.Foundation
