import Mathlib.Data.List.Basic
import Mathlib.Data.List.Nodup

/-!
# Tables

A table is a list of rows, in the order of insertion. An update changes the rows that meet a
condition, and what it does is seen row by row: a row of the table after it is a row of the table
before it, changed or not.
-/

namespace FreeSwarm.Foundation

section

variable {R K : Type*} {p : R → Prop} [DecidablePred p] {f : R → R} {rows : List R}

/-- The rows, those that meet the condition changed. -/
def updateWhere (p : R → Prop) [DecidablePred p] (f : R → R) (rows : List R) : List R :=
  rows.map fun row => if p row then f row else row

/-- The number of rows that meet the condition. -/
def rowCount (p : R → Prop) [DecidablePred p] (rows : List R) : Nat := rows.countP fun row => p row

theorem mem_updateWhere {row' : R} :
    row' ∈ updateWhere p f rows ↔ ∃ row ∈ rows, (if p row then f row else row) = row' := by
  rw [updateWhere, List.mem_map]

theorem updateWhere_mem {row : R} (mem : row ∈ rows) :
    (if p row then f row else row) ∈ updateWhere p f rows :=
  mem_updateWhere.mpr ⟨row, mem, rfl⟩

theorem map_updateWhere (key : R → K) (keeps : ∀ row, key (f row) = key row) :
    (updateWhere p f rows).map key = rows.map key := by
  rw [updateWhere, List.map_map]
  apply List.map_congr_left
  intro row _
  simp only [Function.comp_apply]
  split
  · exact keeps row
  · rfl

theorem rowCount_eq_zero : rowCount p rows = 0 ↔ ∀ row ∈ rows, ¬ p row := by
  simp [rowCount, List.countP_eq_zero]

theorem exists_of_rowCount_ne_zero (counted : rowCount p rows ≠ 0) : ∃ row ∈ rows, p row := by
  by_contra none
  apply counted
  rw [rowCount_eq_zero]
  intro row mem meets
  exact none ⟨row, mem, meets⟩

theorem rowCount_set {i : Nat} {row : R} (row' : R) (there : rows[i]? = some row) :
    rowCount p (rows.set i row') + (if p row then 1 else 0) =
      rowCount p rows + if p row' then 1 else 0 := by
  obtain ⟨inside, same⟩ := List.getElem?_eq_some_iff.mp there
  have mem : row ∈ rows := List.mem_of_getElem? there
  rw [rowCount, rowCount, List.countP_set inside, same]
  by_cases before : p row
  · have positive : 0 < rows.countP fun row => p row :=
      List.countP_pos_iff.mpr ⟨row, mem, decide_eq_true before⟩
    simp only [before, decide_true, if_true]
    by_cases after : p row' <;> simp only [after, decide_true, decide_false, if_true,
      Bool.false_eq_true, if_false] <;> omega
  · simp only [before, decide_false, Bool.false_eq_true, if_false]
    by_cases after : p row' <;> simp only [after, decide_true, decide_false, if_true,
      Bool.false_eq_true, if_false] <;> omega

theorem rowCount_concat (row : R) :
    rowCount p (rows ++ [row]) = rowCount p rows + if p row then 1 else 0 := by
  rw [rowCount, rowCount, List.countP_append, List.countP_singleton]
  by_cases meets : p row <;> simp [meets]

theorem updateWhere_of_rowCount_eq_zero (zero : rowCount p rows = 0) :
    updateWhere p f rows = rows := by
  rw [rowCount_eq_zero] at zero
  have same : ∀ row ∈ rows, (if p row then f row else row) = id row :=
    fun row mem => if_neg (zero row mem)
  rw [updateWhere, List.map_congr_left same, List.map_id]

variable {q : R → Prop}

theorem rowCount_congr [DecidablePred q] (same : ∀ row ∈ rows, p row ↔ q row) :
    rowCount p rows = rowCount q rows := by
  apply List.countP_congr
  intro row mem
  rw [decide_eq_true_iff, decide_eq_true_iff]
  exact same row mem

theorem rowCount_updateWhere [DecidablePred q] :
    rowCount q (updateWhere p f rows) = rowCount (fun row => q (if p row then f row else row)) rows := by
  rw [rowCount, updateWhere, List.countP_map]
  rfl

theorem rowCount_or [DecidablePred q] (excludes : ∀ row ∈ rows, p row → ¬q row) :
    rowCount (fun row => p row ∨ q row) rows = rowCount p rows + rowCount q rows := by
  induction rows with
  | nil => rfl
  | cons row rows ih =>
    have rest := ih fun other mem => excludes other (List.mem_cons_of_mem _ mem)
    simp only [rowCount] at rest ⊢
    rw [List.countP_cons, List.countP_cons, List.countP_cons, rest]
    by_cases first : p row
    · have not_ := excludes row List.mem_cons_self first
      simp only [first, not_, true_or, decide_true, decide_false, if_true, Bool.false_eq_true, if_false]
      omega
    · by_cases second : q row
      · simp only [first, second, or_true, decide_true, decide_false, if_true, Bool.false_eq_true,
          if_false]
        omega
      · simp only [first, second, or_self, decide_false, Bool.false_eq_true, if_false, Nat.add_zero]

/-- An update of rows that do not meet another condition, before and after it, leaves the first row that
meets this one. -/
theorem find?_updateWhere_other [DecidablePred q]
    (apart : ∀ row, p row → ¬q row ∧ ¬q (f row)) :
    (updateWhere p f rows).find? (fun row => q row) = rows.find? (fun row => q row) := by
  induction rows with
  | nil => rfl
  | cons row rows ih =>
    rw [updateWhere] at ih ⊢
    rw [List.map_cons, List.find?_cons, List.find?_cons, ih]
    by_cases changed : p row
    · obtain ⟨before, after⟩ := apart row changed
      rw [if_pos changed, decide_eq_false before, decide_eq_false after]
    · rw [if_neg changed]

theorem find?_updateWhere_self (meets : ∀ row, p row → p (f row)) :
    (updateWhere p f rows).find? (fun row => p row) = (rows.find? fun row => p row).map f := by
  induction rows with
  | nil => rfl
  | cons row rows ih =>
    rw [updateWhere] at ih ⊢
    rw [List.map_cons, List.find?_cons, List.find?_cons, ih]
    by_cases changed : p row
    · rw [if_pos changed, decide_eq_true (meets row changed), decide_eq_true changed]
      rfl
    · rw [if_neg changed, decide_eq_false changed]

theorem row_eq_of_key {key : R → K} (nodup : (rows.map key).Nodup) {row row' : R}
    (mem : row ∈ rows) (mem' : row' ∈ rows) (same : key row = key row') : row = row' :=
  List.inj_on_of_nodup_map nodup mem mem' same

end

end FreeSwarm.Foundation
