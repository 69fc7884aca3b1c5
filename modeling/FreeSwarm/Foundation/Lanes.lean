import Mathlib.Algebra.Order.Ring.Int
import Mathlib.Data.List.Range
import Mathlib.Logic.Function.Basic
import Mathlib.Order.Defs.LinearOrder

/-!
# Lanes

A vector program works on a block of lanes at once: it stores a value at an address of each lane that
a mask lets through, counts lanes, and finds the first lane with the least or the greatest value.
-/

namespace FreeSwarm.Foundation

/-! ## The first of the best lanes -/

section

def firstBest (n : Nat) (better : Nat → Nat → Bool) : Nat :=
  (List.range n).foldl (fun best lane => if better lane best then lane else best) 0

/-- A lane is better if its value is smaller. A lane without a value has the greatest. -/
def below : Option Int → Option Int → Bool
  | some x, some y => x < y
  | some _, none => true
  | none, _ => false

/-- A lane is better if its value is greater. A lane without a value has the least. -/
def above : Option Int → Option Int → Bool
  | some x, some y => y < x
  | some _, none => true
  | none, _ => false

variable {n : Nat} {better : Nat → Nat → Bool}

/-- What it takes to be better: not both ways, and what is better than another is better than a third
one or the third one is better than the other. -/
structure Ranks (better : Nat → Nat → Bool) : Prop where
  asymm : ∀ a b, better a b → ¬ better b a
  split : ∀ a b c, better a c → better a b ∨ better b c

theorem ranks_below (value : Nat → Option Int) : Ranks fun a b => below (value a) (value b) := by
  constructor
  · intro a b
    cases value a <;> cases value b <;> simp [below]
    omega
  · intro a b c
    cases value a <;> cases value b <;> cases value c <;> simp [below]
    omega

theorem ranks_above (value : Nat → Option Int) : Ranks fun a b => above (value a) (value b) := by
  constructor
  · intro a b
    cases value a <;> cases value b <;> simp [above]
    omega
  · intro a b c
    cases value a <;> cases value b <;> cases value c <;> simp [above]
    omega

theorem firstBest_spec (ranks : Ranks better) (some_ : 0 < n) :
    firstBest n better < n ∧ (∀ s < n, ¬ better s (firstBest n better)) ∧
      ∀ s < firstBest n better, better (firstBest n better) s := by
  induction n with
  | zero => exact absurd some_ (lt_irrefl 0)
  | succ n ih =>
    have step : firstBest (n + 1) better =
        if better n (firstBest n better) then n else firstBest n better := by
      rw [firstBest, List.range_succ, List.foldl_append]
      rfl
    have irrefl : ∀ s, ¬ better s s := fun s same => ranks.asymm s s same same
    rcases Nat.eq_zero_or_pos n with rfl | some_
    · rw [step, show firstBest 0 better = 0 from rfl, ite_self]
      refine ⟨some_, fun s lt => ?_, fun s lt => absurd lt (Nat.not_lt_zero s)⟩
      obtain rfl : s = 0 := by omega
      exact irrefl 0
    · obtain ⟨inside, best, first⟩ := ih some_
      rw [step]
      split
      · next newer =>
        refine ⟨Nat.lt_succ_self n, fun s lt here => ?_, fun s lt => ?_⟩
        · by_cases same : s = n
          · exact irrefl n (same ▸ here)
          · rcases ranks.split s (firstBest n better) n here with known | back
            · exact best s (by omega) known
            · exact ranks.asymm _ _ newer back
        · exact (ranks.split n s _ newer).resolve_right (best s lt)
      · next older =>
        refine ⟨by omega, fun s lt => ?_, first⟩
        by_cases same : s = n
        · rwa [same]
        · exact best s (by omega)

/-- A lane that no lane is better than, and that is better than every earlier lane, is the first of
the best. -/
theorem firstBest_eq {m : Nat} (ranks : Ranks better) (inside : m < n)
    (best : ∀ s < n, ¬ better s m) (first : ∀ s < m, better m s) : firstBest n better = m := by
  obtain ⟨inside', best', first'⟩ := firstBest_spec ranks (n := n) (by omega)
  rcases lt_trichotomy (firstBest n better) m with before | same | after
  · exact absurd (first _ before) (best' m inside)
  · exact same
  · exact absurd (first' m after) (best _ inside')

end

/-! ## Counting and storing -/

section

def laneCount (n : Nat) (mask : Nat → Bool) : Nat := (List.range n).countP mask

theorem laneCount_succ (n : Nat) (mask : Nat → Bool) :
    laneCount (n + 1) mask = laneCount n mask + if mask n then 1 else 0 := by
  rw [laneCount, laneCount, List.range_succ, List.countP_append, List.countP_singleton]

/-- A sum over the lanes finds the lane with a given number of lanes before it, among those that a
mask lets through. -/
theorem sum_rank (n : Nat) (mask : Nat → Bool) (rank : Nat) :
    ((List.range n).map fun lane =>
      if (laneCount (lane + 1) mask : Int) - 1 = rank ∧ mask lane then lane else 0).sum =
      (((List.range n).filter mask)[rank]?).getD 0 := by
  induction n with
  | zero => rfl
  | succ n ih =>
    have length : laneCount n mask = ((List.range n).filter mask).length :=
      List.countP_eq_length_filter
    rw [List.range_succ, List.map_append, List.sum_append, ih, List.filter_append,
      List.map_singleton, List.sum_singleton, laneCount_succ]
    cases on : mask n
    · simp [on]
    · have single : [n].filter mask = [n] := by simp [on]
      rw [single, if_pos rfl, length]
      rcases lt_trichotomy rank ((List.range n).filter mask).length with earlier | here | later
      · rw [if_neg (by omega), List.getElem?_append_left earlier, Nat.add_zero]
      · rw [if_pos ⟨by omega, rfl⟩, here, List.getElem?_concat_length,
          List.getElem?_eq_none le_rfl]
        exact Nat.zero_add n
      · have outside : rank ≥ ((List.range n).filter mask ++ [n]).length := by
          rw [List.length_append, List.length_singleton]
          omega
        rw [if_neg (by omega), List.getElem?_eq_none later.le, List.getElem?_eq_none outside]
        exact Nat.add_zero _

theorem foldl_or {γ : Type*} (found : γ → Bool) (entries : List γ) (start : Bool) :
    entries.foldl (fun known entry => known || found entry) start =
      (start || entries.any found) := by
  induction entries generalizing start with
  | nil => simp
  | cons entry entries ih => rw [List.foldl_cons, ih, List.any_cons, Bool.or_assoc]

variable {β : Type*}

/-- A value is stored at the address of each lane of a list that the mask lets through. -/
def storeEach (lanes : List Nat) (mask : Nat → Bool) (address : Nat → Nat) (value : Nat → β)
    (memory : Nat → β) : Nat → β :=
  lanes.foldl
    (fun memory lane =>
      if mask lane then Function.update memory (address lane) (value lane) else memory) memory

/-- A value is stored at the address of each lane of a block that the mask lets through. -/
def storeLanes (n : Nat) (mask : Nat → Bool) (address : Nat → Nat) (value : Nat → β)
    (memory : Nat → β) : Nat → β :=
  storeEach (List.range n) mask address value memory

variable {lanes : List Nat} {mask : Nat → Bool} {address : Nat → Nat} {value memory : Nat → β}
  {x : Nat}

theorem storeEach_concat (lane : Nat) : storeEach (lanes ++ [lane]) mask address value memory =
    if mask lane then
      Function.update (storeEach lanes mask address value memory) (address lane) (value lane)
    else storeEach lanes mask address value memory := by
  rw [storeEach, List.foldl_append]
  rfl

theorem storeEach_of_not (apart : ∀ lane ∈ lanes, mask lane → address lane ≠ x) :
    storeEach lanes mask address value memory x = memory x := by
  induction lanes using List.reverseRecOn with
  | nil => rfl
  | append_singleton lanes lane ih =>
    have before := ih fun lane mem => apart lane (List.mem_append_left _ mem)
    rw [storeEach_concat]
    split
    · next on => rw [Function.update_of_ne (apart lane (by simp) on).symm, before]
    · exact before

theorem storeEach_of_lane {v : β}
    (agree : ∀ lane ∈ lanes, mask lane → address lane = x → value lane = v)
    (there : ∃ lane ∈ lanes, mask lane ∧ address lane = x) :
    storeEach lanes mask address value memory x = v := by
  induction lanes using List.reverseRecOn with
  | nil =>
    obtain ⟨lane, mem, -⟩ := there
    exact absurd mem List.not_mem_nil
  | append_singleton lanes last ih =>
    rw [storeEach_concat]
    by_cases here : mask last ∧ address last = x
    · rw [if_pos here.1, ← here.2, Function.update_self]
      exact agree last (by simp) here.1 here.2
    · obtain ⟨lane, mem, on, same⟩ := there
      have earlier : lane ∈ lanes := by
        rcases List.mem_append.mp mem with earlier | at_last
        · exact earlier
        · obtain rfl := List.mem_singleton.mp at_last
          exact absurd ⟨on, same⟩ here
      have before := ih (fun lane mem => agree lane (List.mem_append_left _ mem))
        ⟨lane, earlier, on, same⟩
      split
      · next on' =>
        have ne : x ≠ address last := fun same => here ⟨on', same.symm⟩
        rw [Function.update_of_ne ne, before]
      · exact before

theorem storeEach_const (v : β) :
    storeEach lanes mask address (fun _ => v) memory x =
      if ∃ lane ∈ lanes, mask lane ∧ address lane = x then v else memory x := by
  split
  · next there => exact storeEach_of_lane (fun _ _ _ _ => rfl) there
  · next none_ =>
    apply storeEach_of_not
    intro lane mem on same
    exact none_ ⟨lane, mem, on, same⟩

theorem storeEach_const_congr {lanes' : List Nat} {mask' : Nat → Bool} {address' : Nat → Nat} (v : β)
    (same : ∀ x, (∃ lane ∈ lanes, mask lane ∧ address lane = x) ↔
      ∃ lane ∈ lanes', mask' lane ∧ address' lane = x) :
    storeEach lanes mask address (fun _ => v) memory =
      storeEach lanes' mask' address' (fun _ => v) memory := by
  funext x
  rw [storeEach_const, storeEach_const]
  exact if_congr (same x) rfl rfl

theorem storeLanes_range {n base : Nat} : storeLanes n mask (base + ·) value memory x =
    if base ≤ x ∧ x < base + n ∧ mask (x - base) then value (x - base) else memory x := by
  split
  · next here =>
    apply storeEach_of_lane
    · intro lane _ _ same
      rw [← same, Nat.add_sub_cancel_left]
    · exact ⟨x - base, List.mem_range.mpr (by omega), here.2.2, by omega⟩
  · next outside =>
    apply storeEach_of_not
    intro lane mem on same
    have lt := List.mem_range.mp mem
    apply outside
    rw [← same, Nat.add_sub_cancel_left]
    exact ⟨by omega, by omega, on⟩

theorem storeLanes_id {n : Nat} : storeLanes n mask id value memory x =
    if x < n ∧ mask x then value x else memory x := by
  have zero : (id : Nat → Nat) = (0 + ·) := funext fun lane => (Nat.zero_add lane).symm
  rw [zero, storeLanes_range]
  simp

end

end FreeSwarm.Foundation
