import Mathlib.Data.List.TakeDrop
import Mathlib.Order.Nat

/-!
# Blocks

A list is cut into blocks where a key changes, and the blocks are numbered. What is in a block before the one of a
place is known at that place.
-/

namespace FreeSwarm.Foundation

variable {α κ : Type} [DecidableEq κ]

def numberedFrom (key : α → κ) : Nat → κ → List α → List (Nat × α)
  | _, _, [] => []
  | d, last, x :: xs =>
    let d' := if key x = last then d else d + 1
    (d', x) :: numberedFrom key d' (key x) xs

def numbered (key : α → κ) : List α → List (Nat × α)
  | [] => []
  | x :: xs => numberedFrom key 0 (key x) (x :: xs)

variable {key : α → κ} {xs : List α}

theorem map_snd_numberedFrom (d : Nat) (last : κ) : (numberedFrom key d last xs).map Prod.snd = xs := by
  induction xs generalizing d last with
  | nil => rfl
  | cons x xs ih => rw [numberedFrom, List.map_cons, ih]

@[simp]
theorem map_snd_numbered (key : α → κ) (xs : List α) : (numbered key xs).map Prod.snd = xs := by
  cases xs with
  | nil => rfl
  | cons x xs => exact map_snd_numberedFrom _ _

theorem numberedFrom_take (d : Nat) (last : κ) (k : Nat) :
    numberedFrom key d last (xs.take k) = (numberedFrom key d last xs).take k := by
  induction xs generalizing d last k with
  | nil => simp [numberedFrom]
  | cons x xs ih =>
    cases k with
    | zero => rfl
    | succ k => simp only [List.take_succ_cons, numberedFrom, ih]

theorem numbered_take (k : Nat) : numbered key (xs.take k) = (numbered key xs).take k := by
  cases xs with
  | nil => simp [numbered]
  | cons x xs =>
    cases k with
    | zero => rfl
    | succ k =>
      show numberedFrom key 0 (key x) ((x :: xs).take (k + 1)) = _
      exact numberedFrom_take 0 (key x) (k + 1)

theorem le_of_mem_numberedFrom {d : Nat} {last : κ} {p : Nat × α} (mem : p ∈ numberedFrom key d last xs) :
    d ≤ p.1 := by
  induction xs generalizing d last with
  | nil => exact absurd mem List.not_mem_nil
  | cons x xs ih =>
    have up : d ≤ if key x = last then d else d + 1 := by split <;> omega
    rcases List.mem_cons.mp mem with rfl | mem
    · exact up
    · exact Nat.le_trans up (ih mem)

theorem numbered_sorted (key : α → κ) (xs : List α) : (numbered key xs).Pairwise fun p q => p.1 ≤ q.1 := by
  have from_ : ∀ (xs : List α) (d : Nat) (last : κ),
      (numberedFrom key d last xs).Pairwise fun p q => p.1 ≤ q.1 := by
    intro xs
    induction xs with
    | nil => exact fun _ _ => List.Pairwise.nil
    | cons x xs ih => exact fun d last => List.pairwise_cons.mpr ⟨fun p mem => le_of_mem_numberedFrom mem, ih _ _⟩
  cases xs with
  | nil => exact List.Pairwise.nil
  | cons x xs => exact from_ _ _ _

theorem getElem?_numberedFrom_succ {d : Nat} {last : κ} {i : Nat} {p q : Nat × α}
    (there : (numberedFrom key d last xs)[i]? = some p) (next : (numberedFrom key d last xs)[i + 1]? = some q) :
    q.1 = if key q.2 = key p.2 then p.1 else p.1 + 1 := by
  induction xs generalizing d last i with
  | nil => exact absurd there (by simp [numberedFrom])
  | cons x xs ih =>
    cases i with
    | succ i => exact ih there next
    | zero =>
      cases xs with
      | nil => exact absurd next (by simp [numberedFrom])
      | cons y xs =>
        cases Option.some.inj there
        cases Option.some.inj next
        rfl

theorem numbered_eq_iff {i : Nat} {p q : Nat × α} (there : (numbered key xs)[i]? = some p)
    (next : (numbered key xs)[i + 1]? = some q) : q.1 = p.1 ↔ key q.2 = key p.2 := by
  cases xs with
  | nil => exact absurd there (by simp [numbered])
  | cons x xs =>
    have step := getElem?_numberedFrom_succ there next
    rw [step]
    split
    · next same => simp [same]
    · next differ => simp [differ]

/-! ## What is before a place -/

variable {ps : List (Nat × α)} {p : Nat × α} {i d : Nat}

def blockOf (ps : List (Nat × α)) (d : Nat) : List α := (ps.filter fun p => p.1 = d).map Prod.snd

theorem getElem?_numbered (key : α → κ) {x : α} (there : xs[i]? = some x) :
    ∃ d, (numbered key xs)[i]? = some (d, x) := by
  have read := congrArg (fun l => l[i]?) (map_snd_numbered key xs)
  simp only [List.getElem?_map, there] at read
  obtain ⟨p, is_, rfl⟩ := Option.map_eq_some_iff.mp read
  exact ⟨p.1, is_⟩

/-- In order of a key, what has a lesser key than the member at a place comes before the place. -/
theorem filter_take_of_lt {β : Type} [Preorder β] (rank : α → β) {x : α} {q : α → Bool}
    (order : xs.Pairwise fun x y => rank x ≤ rank y) (there : xs[i]? = some x)
    (less : ∀ y, q y = true → rank y < rank x) : xs.filter q = (xs.take i).filter q := by
  have none_ : (xs.drop i).filter q = [] := by
    refine List.filter_eq_nil_iff.mpr fun y mem is_ => ?_
    obtain ⟨inside, at_⟩ := List.getElem?_eq_some_iff.mp there
    have rest := order.sublist (List.drop_sublist i xs)
    rw [List.drop_eq_getElem_cons inside, at_] at mem rest
    rcases List.mem_cons.mp mem with rfl | later
    · exact lt_irrefl _ (less y is_)
    · exact lt_irrefl _ ((less y is_).trans_le ((List.pairwise_cons.mp rest).1 y later))
  have split := List.filter_append (p := q) (xs.take i) (xs.drop i)
  rwa [List.take_append_drop, none_, List.append_nil] at split

theorem blockOf_take (order : ps.Pairwise fun p q => p.1 ≤ q.1) (there : ps[i]? = some p) (before : d < p.1) :
    blockOf ps d = blockOf (ps.take i) d := by
  have early : ps.filter (fun q => q.1 = d) = (ps.take i).filter fun q => q.1 = d :=
    filter_take_of_lt Prod.fst order there fun q is_ => (of_decide_eq_true is_).trans_lt before
  rw [blockOf, blockOf, early]

theorem blockOf_head (there : ps[i]? = some p) : (blockOf ps p.1).head? = (blockOf (ps.take (i + 1)) p.1).head? := by
  have mem : p ∈ ps.take (i + 1) := List.mem_of_getElem? (by rw [List.getElem?_take_of_succ, there])
  have split := List.filter_append (p := fun q => decide (q.1 = p.1)) (ps.take (i + 1)) (ps.drop (i + 1))
  rw [List.take_append_drop] at split
  have some_ : (blockOf (ps.take (i + 1)) p.1) ≠ [] := by
    rw [blockOf, Ne, List.map_eq_nil_iff, List.filter_eq_nil_iff]
    exact fun none_ => none_ p mem (by simp)
  rw [blockOf, split, List.map_append, ← blockOf, List.head?_append, List.head?_eq_some_head some_,
    Option.some_or]

end FreeSwarm.Foundation
