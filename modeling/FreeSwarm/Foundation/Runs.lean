import Mathlib.Data.List.Basic
import Mathlib.Data.List.GetD

/-!
# Runs and stretches

The places of a list where something holds fall into runs. The places of a list that is cut fall into stretches.
-/

namespace FreeSwarm.Foundation

/-! ## Runs -/

def runStarts (m : Nat → Bool) (n : Nat) : List Nat := (List.range n).filter fun i => !m i && m (i + 1)

/-- The places of a list behind which a run ends, with one place more in front. -/
def runStops (m : Nat → Bool) (n : Nat) : List Nat := (List.range n).filter fun i => m i && !m (i + 1)

def runs (mask : List Bool) : List (Nat × Nat) :=
  let m := fun i => (false :: mask ++ [false]).getD i false
  (runStarts m (mask.length + 1)).zip (runStops m (mask.length + 1))

structure IsRun (mask : List Bool) (a b : Nat) : Prop where
  spans : a < b
  holds : ∀ k, a ≤ k → k < b → mask.getD k false = true
  before : a = 0 ∨ mask.getD (a - 1) false = false
  behind : mask.getD b false = false

section Marks

variable {m : Nat → Bool} {n : Nat}

structure RunsUpTo (m : Nat → Bool) (n : Nat) (found : List (Nat × Nat)) : Prop where
  sound : ∀ ab ∈ found, ab.1 < ab.2 ∧ m ab.1 = false ∧ m (ab.2 + 1) = false ∧
    ∀ k, ab.1 < k → k ≤ ab.2 → m k = true
  complete : ∀ k ≤ n, m k = true → ∃ ab ∈ found, ab.1 < k ∧ k ≤ ab.2

theorem RunsUpTo.skip {found : List (Nat × Nat)} (upTo : RunsUpTo m n found) (none_ : m (n + 1) = false) :
    RunsUpTo m (n + 1) found := by
  refine ⟨upTo.sound, ?_⟩
  intro k le holds
  rcases Nat.lt_or_eq_of_le le with less | rfl
  · exact upTo.complete k (Nat.lt_succ_iff.mp less) holds
  · rw [none_] at holds
    contradiction

theorem RunsUpTo.add {found : List (Nat × Nat)} {r : Nat} (upTo : RunsUpTo m r found) (spans : r < n)
    (before : m r = false) (holds : ∀ k, r < k → k ≤ n → m k = true) (behind : m (n + 1) = false) :
    RunsUpTo m (n + 1) (found ++ [(r, n)]) := by
  refine ⟨?_, ?_⟩
  · intro ab mem
    rcases List.mem_append.mp mem with old | new
    · exact upTo.sound ab old
    · rw [List.mem_singleton.mp new]
      exact ⟨spans, before, behind, holds⟩
  · intro k le true_
    rcases Nat.lt_or_ge r k with later | early
    · refine ⟨(r, n), by simp, later, ?_⟩
      by_contra over_
      obtain rfl : k = n + 1 := by omega
      rw [behind] at true_
      contradiction
    · obtain ⟨ab, mem, inside⟩ := upTo.complete k early true_
      exact ⟨ab, List.mem_append_left _ mem, inside⟩

theorem runStarts_succ : runStarts m (n + 1) = runStarts m n ++ if !m n && m (n + 1) then [n] else [] := by
  simp only [runStarts, List.range_succ, List.filter_append, List.filter_singleton]
  cases !m n && m (n + 1) <;> rfl

theorem runStops_succ : runStops m (n + 1) = runStops m n ++ if m n && !m (n + 1) then [n] else [] := by
  simp only [runStops, List.range_succ, List.filter_append, List.filter_singleton]
  cases m n && !m (n + 1) <;> rfl

theorem runs_upTo (first : m 0 = false) (n : Nat) :
    (m n = false → (runStarts m n).length = (runStops m n).length ∧
      RunsUpTo m n ((runStarts m n).zip (runStops m n))) ∧
    (m n = true → ∃ init r, runStarts m n = init ++ [r] ∧ init.length = (runStops m n).length ∧ r < n ∧
      m r = false ∧ (∀ k, r < k → k ≤ n → m k = true) ∧ RunsUpTo m r (init.zip (runStops m n))) := by
  induction n with
  | zero =>
    refine ⟨fun _ => ⟨rfl, by simp [runStarts], ?_⟩, fun true_ => by simp [first] at true_⟩
    intro k le holds
    obtain rfl : k = 0 := by omega
    rw [first] at holds
    contradiction
  | succ n ih =>
    cases here : m n with
    | false =>
      obtain ⟨same, upTo⟩ := ih.1 here
      cases next : m (n + 1) with
      | false => simpa [runStarts_succ, runStops_succ, here, next, same] using upTo.skip next
      | true =>
        refine ⟨by simp, fun _ => ⟨runStarts m n, n, ?_, ?_, by omega, here, ?_, ?_⟩⟩
        · simp [runStarts_succ, here, next]
        · simp [runStops_succ, here, same]
        · intro k later le
          obtain rfl : k = n + 1 := by omega
          exact next
        · simpa [runStops_succ, here] using upTo
    | true =>
      obtain ⟨init, r, starts, same, less, before, holds, upTo⟩ := ih.2 here
      cases next : m (n + 1) with
      | false =>
        refine ⟨fun _ => ?_, by simp⟩
        have starts' : runStarts m (n + 1) = init ++ [r] := by simp [runStarts_succ, here, starts]
        have stops : runStops m (n + 1) = runStops m n ++ [n] := by simp [runStops_succ, here, next]
        rw [starts', stops, List.zip_append same]
        exact ⟨by simp [same], upTo.add less before holds next⟩
      | true =>
        refine ⟨by simp, fun _ => ⟨init, r, ?_, ?_, by omega, before, ?_, ?_⟩⟩
        · simp [runStarts_succ, here, starts]
        · simp [runStops_succ, next, same]
        · intro k later le
          rcases Nat.lt_or_eq_of_le le with early | rfl
          · exact holds k later (by omega)
          · exact next
        · simpa [runStops_succ, next] using upTo

end Marks

section Runs

variable {mask : List Bool} {a b k : Nat}

theorem getD_padded (mask : List Bool) (k : Nat) :
    (false :: mask ++ [false]).getD (k + 1) false = mask.getD k false := by
  rw [List.cons_append, List.getD_cons_succ]
  rcases Nat.lt_or_ge k mask.length with inside | outside
  · rw [List.getD_append _ _ _ _ inside]
  · rw [List.getD_append_right _ _ _ _ outside, List.getD_eq_default _ _ outside]
    cases k - mask.length <;> simp

theorem runs_all (mask : List Bool) :
    RunsUpTo (fun i => (false :: mask ++ [false]).getD i false) (mask.length + 1) (runs mask) := by
  have last : (false :: mask ++ [false]).getD (mask.length + 1) false = false := by
    rw [getD_padded, List.getD_eq_default _ _ (Nat.le_refl _)]
  exact ((runs_upTo rfl _).1 last).2

theorem isRun_of_mem (mem : (a, b) ∈ runs mask) : IsRun mask a b := by
  obtain ⟨spans, before, behind, holds⟩ := (runs_all mask).sound _ mem
  refine ⟨spans, ?_, ?_, by simpa only [getD_padded] using behind⟩
  · intro k from_ to_
    simpa only [getD_padded] using holds (k + 1) (by omega) (by omega)
  · cases a with
    | zero => exact .inl rfl
    | succ a => exact .inr (by simpa only [getD_padded, Nat.add_sub_cancel] using before)

theorem exists_run (holds : mask.getD k false = true) : ∃ a b, (a, b) ∈ runs mask ∧ a ≤ k ∧ k < b := by
  have inside : k < mask.length := by
    by_contra outside
    rw [List.getD_eq_default _ _ (Nat.not_lt.mp outside)] at holds
    contradiction
  obtain ⟨⟨a, b⟩, mem, later, le⟩ := (runs_all mask).complete (k + 1) (by omega) (by simpa only [getD_padded] using holds)
  exact ⟨a, b, mem, Nat.lt_succ_iff.mp later, le⟩

end Runs

/-! ## Stretches -/

section Stretches

variable {cuts : List Nat} {a b c l : Nat}

/-- Between a cut and the next. -/
def stretches (cuts : List Nat) : List (Nat × Nat) := cuts.dropLast.zip cuts.tail

theorem not_cut_of_mem_stretches (sorted : cuts.Pairwise (· < ·)) (mem : (a, b) ∈ stretches cuts) :
    a < b ∧ b ∈ cuts ∧ ∀ c ∈ cuts, ¬ (a < c ∧ c < b) := by
  induction cuts with
  | nil => simp [stretches] at mem
  | cons x rest ih =>
    cases rest with
    | nil => simp [stretches] at mem
    | cons y rest =>
      obtain ⟨first, others⟩ := List.pairwise_cons.mp sorted
      rcases List.mem_cons.mp mem with here | later
      · cases here
        refine ⟨first b (by simp), by simp, ?_⟩
        intro c cut inside
        rcases List.mem_cons.mp cut with rfl | cut
        · exact absurd inside.1 (Nat.lt_irrefl _)
        · rcases List.mem_cons.mp cut with rfl | cut
          · exact absurd inside.2 (Nat.lt_irrefl _)
          · exact absurd ((List.pairwise_cons.mp others).1 c cut) (by omega)
      · obtain ⟨less, stop, none_⟩ := ih others later
        refine ⟨less, List.mem_cons_of_mem _ stop, ?_⟩
        intro c cut inside
        rcases List.mem_cons.mp cut with rfl | cut
        · have start : a ∈ y :: rest := List.dropLast_subset _ (List.of_mem_zip later).1
          exact absurd (first a start) (by omega)
        · exact none_ c cut inside

theorem exists_stretch (first : ∀ c ∈ cuts.head?, c ≤ l) (last : ∃ c ∈ cuts, l < c) :
    ∃ a b, (a, b) ∈ stretches cuts ∧ a ≤ l ∧ l < b := by
  induction cuts with
  | nil => simp at last
  | cons x rest ih =>
    have least : x ≤ l := first x rfl
    cases rest with
    | nil =>
      obtain ⟨c, mem, less⟩ := last
      rw [List.mem_singleton.mp mem] at less
      omega
    | cons y rest =>
      rcases Nat.lt_or_ge l y with before | behind
      · exact ⟨x, y, List.mem_cons_self, least, before⟩
      · obtain ⟨c, mem, less⟩ := last
        have later : c ∈ y :: rest := by
          rcases List.mem_cons.mp mem with rfl | mem
          · omega
          · exact mem
        obtain ⟨a, b, mem, inside⟩ := ih (by simpa using behind) ⟨c, later, less⟩
        exact ⟨a, b, List.mem_cons_of_mem _ mem, inside⟩

end Stretches

end FreeSwarm.Foundation
