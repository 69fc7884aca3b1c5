import Mathlib.Analysis.Real.Sqrt
import Mathlib.Data.List.GetD
import Mathlib.Data.List.MinMax
import Mathlib.Data.List.Sort

/-!
# Islands

Members of the archive whose in-sample daily returns correlate are one island. Members are taken in their order: each
joins the island whose founder it correlates with best, or founds one.
-/

namespace FreeSwarm.Objectives

variable {δ K : Type} [LinearOrder δ] [Field K] [LinearOrder K]

/-! ## The matrix -/

/-- The returns of a member: a day, as `str(d)[:10]`, and a value, where it is a finite number. -/
abbrev DailyReturns (δ K : Type) := List (δ × Option K)

/-- A day of the sample: `not split or str(d)[:10] < split`. -/
def beforeSplit (split : Option δ) (day : δ) : Bool :=
  match split with
  | none => true
  | some split => decide (day < split)

/-- `days`: in order, each once. -/
def sampleDays (members : List (DailyReturns δ K)) (split : Option δ) : List δ :=
  ((members.flatten.map Prod.fst).filter (beforeSplit split)).dedup.insertionSort (· ≤ ·)

def sampleRow (days : List δ) (returns : DailyReturns δ K) : List K :=
  returns.foldl (fun row r =>
    match days.idxOf? r.1, r.2 with
    | some j, some v => row.set j v
    | _, _ => row) (List.replicate days.length 0)

/-- `_in_sample_matrix`: members by days. -/
def inSampleMatrix (members : List (DailyReturns δ K)) (split : Option δ) : List (List K) :=
  members.map (sampleRow (sampleDays members split))

/-! ## Islands -/

/-- `xs @ ys`. -/
def dot (xs ys : List K) : K := (xs.zipWith (· * ·) ys).sum

def centred (row : List K) : List K := row.map (· - row.sum / row.length)

variable (norm : List K → K)

/-- A row without its mean, of length 1 where it can be. -/
def standardisedRow (row : List K) : List K :=
  if 0 < norm (centred row) then (centred row).map (· / norm (centred row)) else (centred row).map fun _ => 0

variable (x : List (List K))

def standardise : List (List K) :=
  if x.flatten = [] then x else x.map (standardisedRow norm)

/-- How two rows correlate. -/
def correlation (z : List (List K)) (i j : Nat) : K := dot (z.getD i []) (z.getD j [])

/-- What is built while members are taken in order. -/
structure Islands where
  founders : List Nat := []
  /-- `out`: the island of each. -/
  out : List Nat := []
  deriving DecidableEq

def Islands.founder (s : Islands) (j : Nat) : Nat := s.founders.getD j 0

def Islands.islandOf (s : Islands) (i : Nat) : Nat := s.out.getD i 0

def Islands.found (s : Islands) (i : Nat) : Islands := ⟨s.founders ++ [i], s.out ++ [s.founders.length]⟩

/-- One member. -/
def Islands.place (z : List (List K)) (rho : K) (s : Islands) (i : Nat) : Islands :=
  match (List.range s.founders.length).argmax fun j => correlation z (s.founder j) i with
  | none => s.found i
  | some j => if correlation z (s.founder j) i ≥ rho then { s with out := s.out ++ [j] } else s.found i

/-- The founders and the islands when all members are placed. -/
def islands (rho : K) : Islands :=
  (List.range (standardise norm x).length).foldl (Islands.place (standardise norm x) rho) {}

def islandsOf (rho : K) : List Nat := (islands norm x rho).out

/-! ## Correlations -/

section Correlations

variable {norm}

/-- What `np.linalg.norm` gives: the root of the sum of squares. -/
structure IsNorm (norm : List K → K) : Prop where
  nonneg : ∀ z, 0 ≤ norm z
  square : ∀ z, norm z * norm z = dot z z

def Constant (row : List K) : Prop := ∀ v ∈ row, ∀ w ∈ row, v = w

omit [LinearOrder K] in
theorem dot_comm (xs ys : List K) : dot xs ys = dot ys xs := by
  rw [dot, dot, List.zipWith_comm]
  simp only [mul_comm]

omit [LinearOrder K] in
theorem dot_map_div (z : List K) (n : K) : dot (z.map (· / n)) (z.map (· / n)) = dot z z / (n * n) := by
  induction z with
  | nil => simp [dot]
  | cons v z ih =>
    simp only [dot, List.map_cons, List.zipWith_cons_cons, List.sum_cons] at ih ⊢
    rw [ih, add_div, div_mul_div_comm]

theorem dot_self_nonneg [IsStrictOrderedRing K] (z : List K) : 0 ≤ dot z z ∧ (dot z z = 0 → ∀ v ∈ z, v = 0) := by
  induction z with
  | nil => simp [dot]
  | cons v z ih =>
    have split : dot (v :: z) (v :: z) = v * v + dot z z := by simp [dot]
    rw [split]
    have square : 0 ≤ v * v := mul_self_nonneg v
    refine ⟨add_nonneg square ih.1, ?_⟩
    intro zero
    obtain ⟨first, rest⟩ := (add_eq_zero_iff_of_nonneg square ih.1).mp zero
    simpa using ⟨mul_self_eq_zero.mp first, ih.2 rest⟩

theorem dot_standardisedRow [IsStrictOrderedRing K] (isNorm : IsNorm norm) {row : List K} (varies : ¬ Constant row) :
    dot (standardisedRow norm row) (standardisedRow norm row) = 1 := by
  have some_ : dot (centred row) (centred row) ≠ 0 := by
    intro zero
    refine varies fun v mem w mem' => ?_
    have all := (dot_self_nonneg (centred row)).2 zero
    have first : v - row.sum / row.length = 0 := all _ (List.mem_map_of_mem mem)
    have second : w - row.sum / row.length = 0 := all _ (List.mem_map_of_mem mem')
    rw [sub_eq_zero.mp first, sub_eq_zero.mp second]
  rw [← isNorm.square] at some_
  have positive : 0 < norm (centred row) := (isNorm.nonneg _).lt_of_ne' fun zero => some_ (by rw [zero, mul_zero])
  rw [standardisedRow, if_pos positive, dot_map_div, ← isNorm.square, div_self some_]

/-- Rows without days are left as they are, which is what standardising makes of them. -/
theorem standardise_eq_map (x : List (List K)) : standardise norm x = x.map (standardisedRow norm) := by
  rw [standardise]
  split_ifs with none_
  · have same : ∀ row ∈ x, standardisedRow norm row = row := fun row mem => by
      simp [List.flatten_eq_nil_iff.mp none_ row mem, standardisedRow, centred]
    rw [List.map_congr_left same, List.map_id']
  · rfl

end Correlations

/-! ## Founders and members -/

section Placing

variable {z : List (List K)} {rho : K} {i : Nat} {s : Islands}

/-- What holds when `i` members are placed. -/
structure Placed (z : List (List K)) (rho : K) (i : Nat) (s : Islands) : Prop where
  length : s.out.length = i
  founded : ∀ j < s.founders.length, s.founder j < i ∧ s.islandOf (s.founder j) = j
  apart : ∀ a b, a < b → b < s.founders.length → correlation z (s.founder a) (s.founder b) < rho
  joined : ∀ k < i, s.islandOf k < s.founders.length ∧
    (s.founder (s.islandOf k) = k ∨ rho ≤ correlation z (s.founder (s.islandOf k)) k)

theorem getD_concat {l : List Nat} {k v : Nat} (less : k < l.length) : (l ++ [v]).getD k 0 = l.getD k 0 :=
  List.getD_append _ _ _ _ less

theorem getD_concat_length {l : List Nat} {v : Nat} : (l ++ [v]).getD l.length 0 = v := by simp

theorem Placed.join (ok : Placed z rho i s) {j : Nat} (there : j < s.founders.length)
    (close : rho ≤ correlation z (s.founder j) i) : Placed z rho (i + 1) { s with out := s.out ++ [j] } := by
  have old : ∀ k < i, (s.out ++ [j]).getD k 0 = s.islandOf k := fun k less => getD_concat (ok.length ▸ less)
  have new : (s.out ++ [j]).getD i 0 = j := by
    rw [← ok.length, getD_concat_length]
  refine ⟨by simp [ok.length], ?_, ok.apart, ?_⟩
  · intro a less
    obtain ⟨inside, here⟩ := ok.founded a less
    exact ⟨inside.trans (Nat.lt_succ_self i), (old _ inside).trans here⟩
  · intro k less
    rcases Nat.lt_succ_iff_lt_or_eq.mp less with earlier | rfl
    · rw [Islands.islandOf, old k earlier]
      exact ok.joined k earlier
    · rw [Islands.islandOf, new]
      exact ⟨there, .inr close⟩

theorem Placed.found (ok : Placed z rho i s)
    (far : ∀ j < s.founders.length, correlation z (s.founder j) i < rho) : Placed z rho (i + 1) (s.found i) := by
  have oldOut : ∀ k < i, (s.found i).islandOf k = s.islandOf k := fun k less => getD_concat (ok.length ▸ less)
  have newOut : (s.found i).islandOf i = s.founders.length := by
    rw [← ok.length]
    exact getD_concat_length
  have old : ∀ j < s.founders.length, (s.found i).founder j = s.founder j := fun j less => getD_concat less
  have new : (s.found i).founder s.founders.length = i := getD_concat_length
  have length : (s.found i).founders.length = s.founders.length + 1 := by simp [Islands.found]
  refine ⟨by simp [Islands.found, ok.length], ?_, ?_, ?_⟩
  · intro j less
    rcases Nat.lt_succ_iff_lt_or_eq.mp (length ▸ less) with earlier | rfl
    · obtain ⟨inside, here⟩ := ok.founded j earlier
      rw [old j earlier, oldOut _ inside]
      exact ⟨inside.trans (Nat.lt_succ_self i), here⟩
    · rw [new]
      exact ⟨Nat.lt_succ_self i, newOut⟩
  · intro a b order less
    rcases Nat.lt_succ_iff_lt_or_eq.mp (length ▸ less) with earlier | rfl
    · rw [old a (order.trans earlier), old b earlier]
      exact ok.apart a b order earlier
    · rw [old a order, new]
      exact far a order
  · intro k less
    rw [length]
    rcases Nat.lt_succ_iff_lt_or_eq.mp less with earlier | rfl
    · obtain ⟨there, either⟩ := ok.joined k earlier
      rw [oldOut k earlier, old _ there]
      exact ⟨there.trans (Nat.lt_succ_self _), either⟩
    · rw [newOut]
      exact ⟨Nat.lt_succ_self _, .inl new⟩

theorem Placed.place (ok : Placed z rho i s) : Placed z rho (i + 1) (s.place z rho i) := by
  rw [Islands.place]
  split
  · next none_ =>
    have length : s.founders.length = 0 := by simpa using List.argmax_eq_none.mp none_
    exact ok.found fun j less => by omega
  · next j best =>
    have there : j < s.founders.length := List.mem_range.mp (List.argmax_mem best)
    split_ifs with close
    · exact ok.join there close
    · refine ok.found fun j' less => ?_
      exact (List.le_of_mem_argmax (List.mem_range.mpr less) best).trans_lt (not_le.mp close)

theorem placed_foldl (n : Nat) : Placed z rho n ((List.range n).foldl (Islands.place z rho) {}) := by
  induction n with
  | zero => exact ⟨rfl, by simp, by simp, by simp⟩
  | succ n ih =>
    rw [List.range_succ, List.foldl_append]
    exact ih.place

end Placing

/-! ## The days of the sample -/

section Sample

variable {members : List (DailyReturns δ K)} {split : Option δ}

def inSample (split : Option δ) (returns : DailyReturns δ K) : DailyReturns δ K :=
  returns.filter fun r => beforeSplit split r.1

omit [Field K] [LinearOrder K] in
theorem sampleDays_inSample : sampleDays (members.map (inSample split)) split = sampleDays members split := by
  have same : ((members.map (inSample split)).flatten.map Prod.fst).filter (beforeSplit split) =
      (members.flatten.map Prod.fst).filter (beforeSplit split) := by
    induction members with
    | nil => rfl
    | cons returns members ih =>
      simp only [List.map_cons, List.flatten_cons, List.map_append, List.filter_append, ih]
      congr 1
      simp [inSample, List.filter_map, Function.comp_def, List.filter_filter]
  rw [sampleDays, sampleDays, same]

omit [LinearOrder K] in
theorem sampleRow_inSample {days : List δ} (before : ∀ day ∈ days, beforeSplit split day = true)
    (returns : DailyReturns δ K) : sampleRow days (inSample split returns) = sampleRow days returns := by
  rw [sampleRow, sampleRow, inSample, List.foldl_filter]
  congr 1
  funext row r
  split_ifs with inside
  · rfl
  · have gone : days.idxOf? r.1 = none := List.idxOf?_eq_none_iff.mpr fun mem => inside (before _ mem)
    rw [gone]

omit [LinearOrder K] in
theorem inSampleMatrix_inSample : inSampleMatrix (members.map (inSample split)) split = inSampleMatrix members split := by
  have before : ∀ day ∈ sampleDays members split, beforeSplit split day = true := by
    intro day mem
    rw [sampleDays, List.mem_insertionSort, List.mem_dedup] at mem
    exact (List.mem_filter.mp mem).2
  rw [inSampleMatrix, inSampleMatrix, sampleDays_inSample, List.map_map]
  exact List.map_congr_left fun returns _ => sampleRow_inSample before returns

end Sample

/-! ## The archive -/

structure IslandLaw (norm : List K → K) (x : List (List K)) (rho : K) (s : Islands) : Prop where
  one : s.out.length = x.length ∧ ∀ k < x.length, s.islandOf k < s.founders.length
  founded : ∀ j < s.founders.length, s.founder j < x.length ∧ s.islandOf (s.founder j) = j
  apart : ∀ a < s.founders.length, ∀ b < s.founders.length, a ≠ b →
    correlation (standardise norm x) (s.founder a) (s.founder b) < rho
  joined : ∀ k < x.length, rho ≤ correlation (standardise norm x) (s.founder (s.islandOf k)) k ∨
    s.founder (s.islandOf k) = k ∧ (Constant (x.getD k []) ∨ 1 < rho)

variable {norm} [IsStrictOrderedRing K]

/-- Members are on islands whose founders do not correlate with each other but with their members, and no return dated
on or after the split has a part in it. -/
theorem islandsOf_law (isNorm : IsNorm norm) (members : List (DailyReturns δ K)) (split : Option δ) (rho : K) :
    IslandLaw norm (inSampleMatrix members split) rho (islands norm (inSampleMatrix members split) rho) ∧
      ∀ members' : List (DailyReturns δ K), members'.map (inSample split) = members.map (inSample split) →
        islandsOf norm (inSampleMatrix members' split) rho = islandsOf norm (inSampleMatrix members split) rho := by
  refine ⟨?_, fun members' same => ?_⟩
  · generalize inSampleMatrix members split = x
    have length : (standardise norm x).length = x.length := by rw [standardise_eq_map, List.length_map]
    have ok : Placed (standardise norm x) rho x.length (islands norm x rho) := length ▸ placed_foldl _
    refine ⟨⟨ok.length, fun k less => (ok.joined k less).1⟩, ok.founded, ?_, ?_⟩
    · intro a inA b inB other
      rcases Nat.lt_or_gt_of_ne other with before | behind
      · exact ok.apart a b before inB
      · rw [correlation, dot_comm]
        exact ok.apart b a behind inA
    · intro k less
      rcases (ok.joined k less).2 with self | close
      · by_cases constant : Constant (x.getD k [])
        · exact .inr ⟨self, .inl constant⟩
        · have row : (standardise norm x).getD k [] = standardisedRow norm (x.getD k []) := by
            simp [standardise_eq_map, less]
          rw [self, correlation, row, dot_standardisedRow isNorm constant]
          exact (le_or_gt rho 1).imp id fun over_ => ⟨rfl, .inr over_⟩
      · exact .inl close
  · have matrix : inSampleMatrix members' split = inSampleMatrix members split := by
      rw [← inSampleMatrix_inSample, same, inSampleMatrix_inSample]
    rw [matrix]

noncomputable def rootNorm (z : List ℝ) : ℝ := √(dot z z)

theorem isNorm_rootNorm : IsNorm rootNorm :=
  ⟨fun _ => Real.sqrt_nonneg _, fun z => Real.mul_self_sqrt (dot_self_nonneg z).1⟩

/-- Two members, one with a return dated on the split. -/
theorem islandsOf_law_two :
    let members : List (DailyReturns Nat ℝ) := [[(1, some 1), (2, some 3)], [(1, some 2), (2, some 6), (3, some 0)]]
    IslandLaw rootNorm (inSampleMatrix members (some 3)) (9 / 10)
        (islands rootNorm (inSampleMatrix members (some 3)) (9 / 10)) ∧
      ∀ members' : List (DailyReturns Nat ℝ), members'.map (inSample (some 3)) = members.map (inSample (some 3)) →
        islandsOf rootNorm (inSampleMatrix members' (some 3)) (9 / 10) =
          islandsOf rootNorm (inSampleMatrix members (some 3)) (9 / 10) :=
  islandsOf_law isNorm_rootNorm _ (some 3) (9 / 10)

/-- A series with no variance founds an island and does not correlate with itself. -/
theorem islandsOf_constant :
    islands rootNorm [[1, 1]] (9 / 10) = ⟨[0], [0]⟩ ∧ correlation (standardise rootNorm [[1, 1]]) 0 0 < 9 / 10 := by
  have mean : ((1 : ℝ) + 1) / 2 = 1 := by norm_num
  have flat : standardise rootNorm [[1, 1]] = [[0, 0]] := by
    simp [standardise, standardisedRow, centred, rootNorm, dot, mean]
  refine ⟨by simp [islands, flat, Islands.place, Islands.found], ?_⟩
  norm_num [flat, correlation, dot]

end FreeSwarm.Objectives
