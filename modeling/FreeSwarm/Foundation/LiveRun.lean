import Mathlib.Data.List.Basic
import Mathlib.Data.List.Induction
import Mathlib.Order.Basic

/-!
# Runs of live pieces

A sequence is read piece by piece, and each piece is live or dead as a whole. Of the prefixes that end with
a piece, one is wanted whose last places are live: a window of them, or all where there are fewer. A scan
finds the longest one. It counts the live places since the last dead piece and keeps the best prefix before
each dead piece, since no later one can end in the same run.
-/

namespace FreeSwarm.Foundation

structure Piece where
  length : Nat
  dead : Bool
  deriving DecidableEq, Repr

namespace LiveRun

def deadOf (pieces : List Piece) : List Bool := pieces.flatMap fun p => List.replicate p.length p.dead

@[simp]
theorem deadOf_nil : deadOf [] = [] := rfl

@[simp]
theorem deadOf_concat (pieces : List Piece) (p : Piece) :
    deadOf (pieces ++ [p]) = deadOf pieces ++ List.replicate p.length p.dead := by
  simp [deadOf]

/-- The last places are live: a window of them, or all where there are fewer. -/
def Trailing (window : Nat) (dead : List Bool) : Prop := ∀ d ∈ dead.reverse.take window, d = false

instance (window : Nat) (dead : List Bool) : Decidable (Trailing window dead) :=
  inferInstanceAs (Decidable (∀ d ∈ dead.reverse.take window, d = false))

def covers (window : Nat) : Option Nat → Bool
  | none => true
  | some run => decide (window ≤ run)

structure Scan where
  since : Option Nat
  count : Nat
  best : Nat
  deriving DecidableEq, Repr

namespace Scan

def start : Scan := { since := none, count := 0, best := 0 }

/-- Keep what was read as the best prefix if the run covers the window. -/
def commit (window : Nat) (s : Scan) : Scan :=
  if covers window s.since then
    { s with
      best := s.count }
  else s

/-- Read a piece. A dead one ends the run. -/
def next (window : Nat) (s : Scan) (p : Piece) : Scan :=
  if p.dead then
    { s.commit window with
      since := some 0
      count := s.count + 1 }
  else
    { s with
      since := s.since.map (· + p.length)
      count := s.count + 1 }

def all (window : Nat) (pieces : List Piece) : Scan := pieces.foldl (next window) start

variable (window : Nat)

theorem all_concat (pieces : List Piece) (p : Piece) :
    all window (pieces ++ [p]) = (all window pieces).next window p := by
  simp [all]

theorem count_all (pieces : List Piece) : (all window pieces).count = pieces.length := by
  induction pieces using List.reverseRecOn with
  | nil => rfl
  | append_singleton pieces p ih =>
    rw [all_concat, List.length_append, List.length_singleton, next]
    split <;> simp [ih]

end Scan

/-- What the count of live places says about the places that were read. -/
def Since (dead : List Bool) : Option Nat → Prop
  | none => ∀ d ∈ dead, d = false
  | some run => ∃ before, dead = before ++ true :: List.replicate run false

variable {window : Nat} {dead : List Bool}

theorem Since.trailing_iff {since : Option Nat} (h : Since dead since) :
    Trailing window dead ↔ covers window since = true := by
  cases since with
  | none =>
    refine iff_of_true (fun d mem => ?_) rfl
    exact h d (List.mem_reverse.mp (List.mem_of_mem_take mem))
  | some run =>
    obtain ⟨before, rfl⟩ := h
    rw [covers, decide_eq_true_eq, Trailing, List.reverse_append, List.reverse_cons, List.reverse_replicate,
      List.append_assoc, List.singleton_append]
    constructor
    · intro trailing
      by_contra short
      have inside : true ∈ (List.replicate run false ++ true :: before.reverse).take window := by
        rw [List.mem_take_iff_getElem]
        refine ⟨run, ?_, ?_⟩
        · simp
          omega
        · simp
      exact absurd (trailing true inside) Bool.noConfusion
    · intro long d mem
      rw [List.take_append_of_le_length (by simpa using long)] at mem
      exact List.eq_of_mem_replicate (List.mem_of_mem_take mem)

theorem Trailing.live (h : Trailing window dead) {j : Nat} {d : Bool} (found : dead[j]? = some d)
    (late : dead.length ≤ j + window) : d = false := by
  obtain ⟨inside, -⟩ := List.getElem?_eq_some_iff.mp found
  refine h d (List.mem_of_getElem? (i := dead.length - 1 - j) ?_)
  rw [List.getElem?_take, if_pos (by omega), List.getElem?_reverse (by omega), ← found]
  congr 1
  omega

structure Knows (window : Nat) (pieces : List Piece) (s : Scan) : Prop where
  since : Since (deadOf pieces) s.since
  inside : s.best ≤ pieces.length
  sound : Trailing window (deadOf (pieces.take s.best))
  longest : ∀ k ≤ pieces.length, Trailing window (deadOf (pieces.take k)) →
    k ≤ s.best ∨ covers window s.since = true

variable {pieces : List Piece}

/-- Before a commit nothing is lost, and after it no longer prefix ends with live places. -/
theorem Knows.commit {s : Scan} (h : Knows window pieces s)
    (count : s.count = pieces.length) :
    (s.commit window).best ≤ pieces.length ∧
      Trailing window (deadOf (pieces.take (s.commit window).best)) ∧
      ∀ k ≤ pieces.length, Trailing window (deadOf (pieces.take k)) → k ≤ (s.commit window).best := by
  unfold Scan.commit
  by_cases covered : covers window s.since = true
  · simp only [if_pos covered, count]
    refine ⟨Nat.le_refl _, ?_, fun k below _ => below⟩
    rw [List.take_length]
    exact h.since.trailing_iff.mpr covered
  · simp only [if_neg covered]
    exact ⟨h.inside, h.sound, fun k below trailing => (h.longest k below trailing).resolve_right covered⟩

theorem Knows.concat {s : Scan} {p : Piece} (since : Since (deadOf (pieces ++ [p])) s.since)
    (inside : s.best ≤ pieces.length) (sound : Trailing window (deadOf (pieces.take s.best)))
    (longest : ∀ k ≤ pieces.length, Trailing window (deadOf (pieces.take k)) →
      k ≤ s.best ∨ covers window s.since = true) : Knows window (pieces ++ [p]) s where
  since := since
  inside := by
    rw [List.length_append]
    exact Nat.le_trans inside (Nat.le_add_right _ _)
  sound := by rwa [List.take_append_of_le_length inside]
  longest k below trailing := by
    rw [List.length_append, List.length_singleton] at below
    rcases Nat.lt_or_ge pieces.length k with last | old
    · have whole : k = (pieces ++ [p]).length := by
        rw [List.length_append, List.length_singleton]
        omega
      rw [whole, List.take_length] at trailing
      exact .inr (since.trailing_iff.mp trailing)
    · rw [List.take_append_of_le_length old] at trailing
      exact longest k old trailing

theorem Knows.live {s : Scan} (h : Knows window pieces s) {p : Piece}
    (alive : p.dead = false) : Knows window (pieces ++ [p]) (s.next window p) := by
  have since : Since (deadOf (pieces ++ [p])) (s.since.map (· + p.length)) := by
    have run := h.since
    rw [deadOf_concat, alive]
    cases before : s.since with
    | none =>
      rw [before] at run
      intro d mem
      rcases List.mem_append.mp mem with mem | mem
      · exact run d mem
      · exact List.eq_of_mem_replicate mem
    | some n =>
      rw [before] at run
      obtain ⟨front, same⟩ := run
      refine ⟨front, ?_⟩
      rw [same, List.append_assoc, List.cons_append, List.replicate_append_replicate]
  have longer : covers window s.since = true → covers window (s.since.map (· + p.length)) = true := by
    cases s.since with
    | none => exact id
    | some n =>
      simp only [covers, Option.map_some, decide_eq_true_eq]
      omega
  simp only [Scan.next, alive, Bool.false_eq_true, if_false]
  exact .concat since h.inside h.sound fun k old trailing => (h.longest k old trailing).imp_right longer

theorem Knows.gone {s : Scan} (h : Knows window pieces s)
    (count : s.count = pieces.length) {p : Piece} (dead : p.dead = true) (nonempty : 0 < p.length) :
    Knows window (pieces ++ [p]) (s.next window p) := by
  obtain ⟨inside, sound, longest⟩ := h.commit count
  have since : Since (deadOf (pieces ++ [p])) (some 0) := by
    refine ⟨deadOf pieces ++ List.replicate (p.length - 1) true, ?_⟩
    have last : List.replicate p.length true = List.replicate (p.length - 1) true ++ [true] := by
      rw [← List.replicate_succ', Nat.sub_add_cancel nonempty]
    rw [deadOf_concat, dead, last, List.append_assoc, List.replicate_zero]
  simp only [Scan.next, dead, if_true]
  exact .concat since inside sound fun k old trailing => .inl (longest k old trailing)

theorem knows_all (window : Nat) {pieces : List Piece} (nonempty : ∀ p ∈ pieces, 0 < p.length) :
    Knows window pieces (Scan.all window pieces) := by
  induction pieces using List.reverseRecOn with
  | nil =>
    refine { since := ?_, inside := Nat.le_refl _, sound := ?_, longest := fun k below _ => .inl below }
    · intro d mem
      cases mem
    · intro d mem
      simp at mem
  | append_singleton pieces p ih =>
    rw [Scan.all_concat]
    have known := ih fun q mem => nonempty q (List.mem_append_left _ mem)
    cases dead : p.dead with
    | false => exact known.live dead
    | true =>
      exact known.gone (Scan.count_all window pieces) dead (nonempty p (by simp))

theorem longest_all (window : Nat) {pieces : List Piece} (nonempty : ∀ p ∈ pieces, 0 < p.length) :
    ((Scan.all window pieces).commit window).best ≤ pieces.length ∧
      Trailing window (deadOf (pieces.take ((Scan.all window pieces).commit window).best)) ∧
      ∀ k ≤ pieces.length, Trailing window (deadOf (pieces.take k)) →
        k ≤ ((Scan.all window pieces).commit window).best :=
  (knows_all window nonempty).commit (Scan.count_all window pieces)

end LiveRun

end FreeSwarm.Foundation
