import Mathlib.Data.List.Basic

/-!
# Reading behind a cursor

A list whose keys increase is read page by page: a page is the first few elements behind a cursor, and
the cursor moves to the last of them. What was read so far is what lies behind the first cursor and
not behind the present one.
-/

namespace FreeSwarm.Foundation

section

variable {R : Type*} {key : R → Int} {rows : List R} {first cursor : Int}

def Increasing (key : R → Int) (rows : List R) : Prop := rows.Pairwise fun a b => key a < key b

def behind (key : R → Int) (cursor : Int) (rows : List R) : List R :=
  rows.filter fun r => cursor < key r

def window (key : R → Int) (first cursor : Int) (rows : List R) : List R :=
  rows.filter fun r => first < key r ∧ key r ≤ cursor

def moved (key : R → Int) (cursor : Int) (page : List R) : Int :=
  (page.getLast?.map key).getD cursor

theorem window_self : window key first first rows = [] := by
  apply List.filter_eq_nil_iff.mpr
  intro r _ both
  have := of_decide_eq_true both
  omega

theorem take_eq_filter (increasing : Increasing key rows) (later : ∀ r ∈ rows, cursor < key r)
    (n : Nat) :
    rows.take n = rows.filter fun r => key r ≤ moved key cursor (rows.take n) := by
  have cut := List.take_append_drop n rows
  have apart := increasing
  rw [Increasing, ← cut, List.pairwise_append] at apart
  obtain ⟨inside, -, across⟩ := apart
  have all : (rows.take n).filter (fun r => key r ≤ moved key cursor (rows.take n)) =
      rows.take n := by
    apply List.filter_eq_self.mpr
    intro r mem
    rw [decide_eq_true_iff]
    cases last : (rows.take n).getLast? with
    | none =>
      rw [List.getLast?_eq_none_iff.mp last] at mem
      cases mem
    | some end_ =>
      obtain ⟨init, same⟩ := List.getLast?_eq_some_iff.mp last
      rw [moved, last, Option.map_some, Option.getD_some]
      rw [same] at mem inside
      cases List.mem_append.mp mem with
      | inl early =>
        exact Int.le_of_lt ((List.pairwise_append.mp inside).2.2 r early end_ List.mem_cons_self)
      | inr same_ => exact Int.le_of_eq (congrArg key (List.mem_singleton.mp same_))
  have none_ : (rows.drop n).filter (fun r => key r ≤ moved key cursor (rows.take n)) = [] := by
    apply List.filter_eq_nil_iff.mpr
    intro r mem
    rw [decide_eq_true_iff, Int.not_le]
    cases last : (rows.take n).getLast? with
    | none =>
      rw [moved, last]
      exact later r (List.mem_of_mem_drop mem)
    | some end_ =>
      rw [moved, last]
      exact across end_ (List.mem_of_getLast? last) r mem
  conv_rhs => rw [← cut]
  rw [List.filter_append, cut, all, none_, List.append_nil]

theorem take_behind (increasing : Increasing key rows) (n : Nat) :
    (behind key cursor rows).take n =
      window key cursor (moved key cursor ((behind key cursor rows).take n)) rows := by
  have later : ∀ r ∈ behind key cursor rows, cursor < key r :=
    fun r mem => by simpa using (List.mem_filter.mp mem).2
  have sorted : Increasing key (behind key cursor rows) := increasing.filter _
  calc (behind key cursor rows).take n
      = (behind key cursor rows).filter fun r =>
          key r ≤ moved key cursor ((behind key cursor rows).take n) := take_eq_filter sorted later n
    _ = window key cursor (moved key cursor ((behind key cursor rows).take n)) rows := by
      generalize moved key cursor ((behind key cursor rows).take n) = end_
      rw [behind, window, List.filter_filter]
      apply List.filter_congr
      intro r _
      rw [← Bool.decide_and, decide_eq_decide]
      exact and_comm

theorem le_moved (n : Nat) : cursor ≤ moved key cursor ((behind key cursor rows).take n) := by
  unfold moved
  cases last : ((behind key cursor rows).take n).getLast? with
  | none => exact Int.le_refl _
  | some end_ =>
    have mem := List.mem_of_mem_take (List.mem_of_getLast? last)
    have above : cursor < key end_ := by simpa using (List.mem_filter.mp mem).2
    exact Int.le_of_lt above

theorem window_append (increasing : Increasing key rows) {next : Int} (above : first ≤ cursor)
    (later : cursor ≤ next) :
    window key first cursor rows ++ window key cursor next rows = window key first next rows := by
  induction rows with
  | nil => rfl
  | cons r rows ih =>
    obtain ⟨less, increasing⟩ := List.pairwise_cons.mp increasing
    have rest := ih increasing
    simp only [window] at rest ⊢
    by_cases old : key r ≤ cursor
    · have not_new : ¬(cursor < key r ∧ key r ≤ next) := by omega
      by_cases read : first < key r
      · rw [List.filter_cons_of_pos (by simp [read, old]),
          List.filter_cons_of_neg (by simpa using not_new),
          List.filter_cons_of_pos (by simp [read, Int.le_trans old later]), List.cons_append, rest]
      · rw [List.filter_cons_of_neg (by simp [read]), List.filter_cons_of_neg (by simpa using not_new),
          List.filter_cons_of_neg (by simp [read]), rest]
    · -- nothing from this row on was read before
      have new : ∀ r' ∈ r :: rows, cursor < key r' := by
        intro r' mem
        cases List.mem_cons.mp mem with
        | inl same =>
          rw [same]
          omega
        | inr mem =>
          have := less r' mem
          omega
      have empty : (r :: rows).filter (fun r => first < key r ∧ key r ≤ cursor) = [] := by
        apply List.filter_eq_nil_iff.mpr
        intro r' mem both
        have := of_decide_eq_true both
        have := new r' mem
        omega
      rw [empty, List.nil_append]
      apply List.filter_congr
      intro r' mem
      have := new r' mem
      rw [decide_eq_decide]
      omega

end

end FreeSwarm.Foundation
