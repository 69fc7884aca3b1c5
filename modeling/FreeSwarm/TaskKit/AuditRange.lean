import FreeSwarm.Foundation.Machine
import FreeSwarm.Foundation.Runs
import Mathlib.Data.List.Sort
import Mathlib.Data.Rat.Cast.Order

/-!
# The verified range

`audit_rows` names the days that a task's rows can be trusted on: a stretch of days without a long gap or a long run of
bad days, from its first to its last good day. It looks at every stretch and takes the one with the most good days.
-/

namespace FreeSwarm.TaskKit

open FreeSwarm.Foundation

structure AuditedDay where
  /-- Its number in the calendar: `toordinal`. -/
  ordinal : Int
  bad : Bool

structure AuditSettings where
  maxGapDays : ℚ := 31
  maxBadRun : ℚ := 20

/-! ## The search -/

section Search

variable (s : AuditSettings) (days : List AuditedDay)

def median (xs : List ℚ) : ℚ :=
  let sorted := xs.insertionSort (· ≤ ·)
  (sorted.getD ((sorted.length - 1) / 2) 0 + sorted.getD (sorted.length / 2) 0) / 2

def ordinalAt (i : Nat) : Int := (days.map AuditedDay.ordinal).getD i 0

/-- `good`. -/
def goodDays : List Bool := days.map fun day => !day.bad

/-- `bad`. -/
def badDays : List Bool := days.map AuditedDay.bad

def gapAt (i : Nat) : Int := ordinalAt days i - ordinalAt days (i - 1)

/-- `step`, the usual gap. -/
def usualStep : ℚ :=
  if 1 < days.length then median ((List.range' 1 (days.length - 1)).map fun i => (gapAt days i : ℚ)) else 1

def AuditSettings.maxGap : ℚ := max s.maxGapDays (5 * usualStep days)

/-- `long_bad`: runs of bad days that end a stretch. -/
def AuditSettings.longBad : List (Nat × Nat) :=
  (runs (badDays days)).filter fun ab => (ab.2 : ℚ) - ab.1 > s.maxBadRun

/-- `breaks`: a new stretch starts at this day. -/
def AuditSettings.breaksAt (i : Nat) : Bool :=
  decide ((gapAt days i : ℚ) > s.maxGap days) ||
    (s.longBad days).any fun ab => ab.1 == i || ab.2 == i && decide (i < days.length)

def AuditSettings.starts : List Nat :=
  [0] ++ (List.range' 1 (days.length - 1)).filter (s.breaksAt days) ++ [days.length]

def goodIn (lo hi : Nat) : Nat := (((goodDays days).take hi).drop lo).count true

/-- `cand`: a stretch from its first to its last good day. -/
def trimmed (stretch : Nat × Nat) : Option (Nat × Nat × Nat) :=
  let idx := (List.range' stretch.1 (stretch.2 - stretch.1)).filter ((goodDays days).getD · false)
  match idx.head?, idx.getLast? with
  | some lo, some last => some (goodIn days lo (last + 1), lo, last + 1)
  | _, _ => none

/-- One stretch more: the later one of two with as many good days. -/
def keepBest (best : Option (Nat × Nat × Nat)) (cand : Nat × Nat × Nat) : Option (Nat × Nat × Nat) :=
  match best with
  | none => some cand
  | some b => if cand.1 ≥ b.1 then some cand else some b

def AuditSettings.best : Option (Nat × Nat × Nat) :=
  ((stretches (s.starts days)).filterMap (trimmed days)).foldl keepBest none

/-- `verified`, as reported. -/
structure Verified where
  first : Int
  last : Int
  days : Nat
  goodDays : Nat
  deriving DecidableEq

/-- The range that `audit_rows` reports. -/
def AuditSettings.verified : Option Verified :=
  (s.best days).map fun best =>
    ⟨ordinalAt days best.2.1, ordinalAt days (best.2.2 - 1), best.2.2 - best.2.1, goodIn days best.2.1 best.2.2⟩

end Search

/-! ## Ranges -/

structure Trusted (s : AuditSettings) (days : List AuditedDay) (lo hi : Nat) : Prop where
  spans : lo < hi
  inside : hi ≤ days.length
  first : (goodDays days).getD lo false = true
  last : (goodDays days).getD (hi - 1) false = true
  gaps : ∀ i, lo < i → i < hi → (gapAt days i : ℚ) ≤ s.maxGap days
  badRuns : ∀ a b, lo ≤ a → a < b → b ≤ hi → (∀ k, a ≤ k → k < b → (badDays days).getD k false = true) →
    (b : ℚ) - a ≤ s.maxBadRun

section Lemmas

variable {s : AuditSettings} {days : List AuditedDay} {lo hi a b : Nat}

theorem good_iff {k : Nat} :
    (goodDays days).getD k false = true ↔ k < days.length ∧ (badDays days).getD k false = false := by
  simp only [goodDays, badDays, List.getD_eq_getElem?_getD, List.getElem?_map]
  rcases Nat.lt_or_ge k days.length with inside | outside
  · simp [inside]
  · simp [Nat.not_lt.mpr outside]

theorem within_of_isRun (run : IsRun (badDays days) a b) (first : (goodDays days).getD lo false = true)
    (last : (goodDays days).getD (hi - 1) false = true) {k : Nat} (from_ : a ≤ k) (to_ : k < b) (low : lo ≤ k)
    (high : k < hi) : lo ≤ a ∧ b ≤ hi := by
  constructor
  · by_contra before
    have bad := run.holds lo (by omega) (by omega)
    rw [(good_iff.mp first).2] at bad
    contradiction
  · by_contra behind
    have bad := run.holds (hi - 1) (by omega) (by omega)
    rw [(good_iff.mp last).2] at bad
    contradiction

theorem Trusted.breaksAt (ok : Trusted s days lo hi) {i : Nat} (from_ : lo < i) (to_ : i < hi) :
    s.breaksAt days i = false := by
  rw [AuditSettings.breaksAt, Bool.or_eq_false_iff, decide_eq_false_iff_not, List.any_eq_false]
  refine ⟨not_lt.mpr (ok.gaps i from_ to_), ?_⟩
  rintro ⟨a, b⟩ mem here
  obtain ⟨found, long⟩ := List.mem_filter.mp mem
  have run : IsRun (badDays days) a b := isRun_of_mem found
  have spans := run.spans
  have within : lo ≤ a ∧ b ≤ hi := by
    rcases Bool.or_eq_true _ _ ▸ here with start | stop
    · have same : a = i := by simpa using start
      exact within_of_isRun run ok.first ok.last (k := a) le_rfl spans (by omega) (by omega)
    · obtain ⟨same, -⟩ := Bool.and_eq_true_iff.mp stop
      obtain rfl : b = i := beq_iff_eq.mp same
      exact within_of_isRun run ok.first ok.last (k := b - 1) (by omega) (by omega) (by omega) (by omega)
  have short := ok.badRuns a b within.1 spans within.2 run.holds
  have over_ : (b : ℚ) - a > s.maxBadRun := by simpa using long
  exact absurd short (not_le.mpr over_)

theorem trusted_of_breaksAt (spans : lo < hi) (inside : hi ≤ days.length)
    (first : (goodDays days).getD lo false = true) (last : (goodDays days).getD (hi - 1) false = true)
    (none_ : ∀ i, lo < i → i < hi → s.breaksAt days i = false) : Trusted s days lo hi := by
  refine ⟨spans, inside, first, last, ?_, ?_⟩
  · intro i from_ to_
    have clear := none_ i from_ to_
    rw [AuditSettings.breaksAt, Bool.or_eq_false_iff, decide_eq_false_iff_not] at clear
    exact not_lt.mp clear.1
  · intro c d from_ less to_ bad
    -- the run as long as it can be is in the range too
    obtain ⟨a, b, found, low, high⟩ := exists_run (bad c le_rfl less)
    have run : IsRun (badDays days) a b := isRun_of_mem found
    have within := within_of_isRun run first last low high from_ (by omega)
    have whole : d ≤ b := by
      by_contra over_
      have ends := run.behind
      rw [bad b (by omega) (by omega)] at ends
      contradiction
    have after : lo < a := by
      rcases Nat.lt_or_eq_of_le within.1 with later | rfl
      · exact later
      · have start := run.holds lo le_rfl run.spans
        rw [(good_iff.mp first).2] at start
        contradiction
    have spansRun := run.spans
    have clear := none_ a after (by omega)
    rw [AuditSettings.breaksAt, Bool.or_eq_false_iff, List.any_eq_false] at clear
    have short : ¬ (b : ℚ) - a > s.maxBadRun := by
      intro long
      refine clear.2 (a, b) (List.mem_filter.mpr ⟨found, ?_⟩) (by simp)
      simpa using long
    have wider : (d : ℚ) - c ≤ (b : ℚ) - a := by
      have left : (a : ℚ) ≤ c := Nat.cast_le.mpr low
      have right : (d : ℚ) ≤ b := Nat.cast_le.mpr whole
      exact sub_le_sub right left
    exact wider.trans (not_lt.mp short)

theorem goodIn_mono {lo' hi' : Nat} (low : lo ≤ lo') (high : hi' ≤ hi) : goodIn days lo' hi' ≤ goodIn days lo hi := by
  have left := ((List.take_prefix_take_left (l := goodDays days) high).sublist).drop lo'
  exact (left.trans (List.drop_sublist_drop_left _ low)).count_le true

theorem between_ends {idx : List Nat} (sorted : idx.Pairwise (· < ·)) {lo last k : Nat} (head : idx.head? = some lo)
    (tail : idx.getLast? = some last) (mem : k ∈ idx) : lo ≤ k ∧ k ≤ last := by
  constructor
  · obtain ⟨rest, rfl⟩ := List.head?_eq_some_iff.mp head
    rcases List.mem_cons.mp mem with rfl | later
    · exact le_rfl
    · exact ((List.pairwise_cons.mp sorted).1 k later).le
  · obtain ⟨init, rfl⟩ := List.getLast?_eq_some_iff.mp tail
    rcases mem_concat mem with earlier | same
    · exact ((List.pairwise_append.mp sorted).2.2 k earlier last (by simp)).le
    · exact same.le

theorem trimmed_spec {cand : Nat × Nat × Nat} (found : trimmed days (a, b) = some cand) :
    cand.1 = goodIn days cand.2.1 cand.2.2 ∧ a ≤ cand.2.1 ∧ cand.2.1 < cand.2.2 ∧ cand.2.2 ≤ b ∧
      (goodDays days).getD cand.2.1 false = true ∧ (goodDays days).getD (cand.2.2 - 1) false = true ∧
      ∀ k, a ≤ k → k < b → (goodDays days).getD k false = true → cand.2.1 ≤ k ∧ k < cand.2.2 := by
  have sorted : ((List.range' a (b - a)).filter ((goodDays days).getD · false)).Pairwise (· < ·) :=
    List.Pairwise.filter _ List.pairwise_lt_range'
  simp only [trimmed] at found
  split at found
  · rename_i lo last head tail
    cases found
    have low := List.mem_filter.mp (List.mem_of_head? head)
    have high := List.mem_filter.mp (List.mem_of_getLast? tail)
    have inLow := List.mem_range'_1.mp low.1
    have inHigh := List.mem_range'_1.mp high.1
    have order := between_ends sorted head tail (List.mem_of_getLast? tail)
    refine ⟨rfl, inLow.1, by simp only; omega, by simp only; omega, low.2, by simpa using high.2, ?_⟩
    intro k from_ to_ good
    have mem : k ∈ (List.range' a (b - a)).filter ((goodDays days).getD · false) :=
      List.mem_filter.mpr ⟨List.mem_range'_1.mpr ⟨from_, by omega⟩, good⟩
    have between := between_ends sorted head tail mem
    exact ⟨between.1, by simp only; omega⟩
  · simp at found

theorem trimmed_isSome {k : Nat} (from_ : a ≤ k) (to_ : k < b) (good : (goodDays days).getD k false = true) :
    ∃ cand, trimmed days (a, b) = some cand := by
  have mem : k ∈ (List.range' a (b - a)).filter ((goodDays days).getD · false) :=
    List.mem_filter.mpr ⟨List.mem_range'_1.mpr ⟨from_, by omega⟩, good⟩
  have some_ := List.ne_nil_of_mem mem
  simp only [trimmed, List.head?_eq_some_head some_, List.getLast?_eq_some_getLast some_]
  exact ⟨_, rfl⟩

theorem keepBest_some (b cand : Nat × Nat × Nat) :
    ∃ best, keepBest (some b) cand = some best ∧ b.1 ≤ best.1 ∧ cand.1 ≤ best.1 ∧ (best = b ∨ best = cand) := by
  rcases Nat.lt_or_ge cand.1 b.1 with fewer | atLeast
  · exact ⟨b, by simp [keepBest, Nat.not_le.mpr fewer], le_rfl, fewer.le, .inl rfl⟩
  · exact ⟨cand, by simp [keepBest, atLeast], atLeast, le_rfl, .inr rfl⟩

variable (cands : List (Nat × Nat × Nat))

theorem foldl_keepBest (b : Nat × Nat × Nat) :
    ∃ best, cands.foldl keepBest (some b) = some best ∧ b.1 ≤ best.1 ∧ (∀ cand ∈ cands, cand.1 ≤ best.1) ∧
      (best = b ∨ best ∈ cands) := by
  induction cands generalizing b with
  | nil => exact ⟨b, rfl, le_rfl, by simp, .inl rfl⟩
  | cons cand cands ih =>
    obtain ⟨first, kept, old, new, either⟩ := keepBest_some b cand
    obtain ⟨best, found, more, most, from_⟩ := ih first
    refine ⟨best, by rw [List.foldl_cons, kept, found], old.trans more, ?_, ?_⟩
    · intro other mem
      rcases List.mem_cons.mp mem with rfl | later
      · exact new.trans more
      · exact most other later
    · rcases from_ with rfl | later
      · rcases either with same | same
        · exact .inl same
        · exact .inr (List.mem_cons.mpr (.inl same))
      · exact .inr (List.mem_cons_of_mem _ later)

theorem foldl_keepBest_none :
    (cands = [] ∧ cands.foldl keepBest none = none) ∨
      ∃ best ∈ cands, cands.foldl keepBest none = some best ∧ ∀ cand ∈ cands, cand.1 ≤ best.1 := by
  cases cands with
  | nil => exact .inl ⟨rfl, rfl⟩
  | cons cand cands =>
    obtain ⟨best, found, more, most, from_⟩ := foldl_keepBest cands cand
    refine .inr ⟨best, ?_, found, ?_⟩
    · rcases from_ with rfl | later
      · exact List.mem_cons_self
      · exact List.mem_cons_of_mem _ later
    · simpa only [List.forall_mem_cons] using ⟨more, most⟩

theorem starts_sorted (some_ : days ≠ []) : (s.starts days).Pairwise (· < ·) := by
  have length : 0 < days.length := List.length_pos_iff.mpr some_
  have inner : ((List.range' 1 (days.length - 1)).filter (s.breaksAt days)).Pairwise (· < ·) :=
    List.Pairwise.filter _ List.pairwise_lt_range'
  have inside : ∀ i ∈ (List.range' 1 (days.length - 1)).filter (s.breaksAt days), 0 < i ∧ i < days.length := by
    intro i mem
    have within := List.mem_range'_1.mp (List.mem_filter.mp mem).1
    omega
  rw [AuditSettings.starts, List.append_assoc, List.singleton_append, List.pairwise_cons]
  refine ⟨?_, List.pairwise_append.mpr ⟨inner, List.pairwise_singleton _ _, ?_⟩⟩
  · intro i mem
    rcases mem_concat mem with break_ | last
    · exact (inside i break_).1
    · exact last ▸ length
  · intro i break_ last mem
    exact List.mem_singleton.mp mem ▸ (inside i break_).2

theorem stretch_spec (some_ : days ≠ []) (mem : (a, b) ∈ stretches (s.starts days)) :
    b ≤ days.length ∧ ∀ i, a < i → i < b → s.breaksAt days i = false := by
  obtain ⟨less, stop, none_⟩ := not_cut_of_mem_stretches (starts_sorted some_) mem
  have inside : b ≤ days.length := by
    rw [AuditSettings.starts, List.append_assoc, List.singleton_append] at stop
    rcases List.mem_cons.mp stop with rfl | stop
    · omega
    · rcases mem_concat stop with break_ | last
      · have within := List.mem_range'_1.mp (List.mem_filter.mp break_).1
        omega
      · exact last.le
  refine ⟨inside, ?_⟩
  intro i from_ to_
  by_contra break_
  refine none_ i ?_ ⟨from_, to_⟩
  have cut : i ∈ (List.range' 1 (days.length - 1)).filter (s.breaksAt days) :=
    List.mem_filter.mpr ⟨List.mem_range'_1.mpr (by omega), Bool.of_not_eq_false break_⟩
  simp only [AuditSettings.starts, List.mem_append]
  exact .inl (.inr cut)

theorem exists_stretch_of_breaksAt (spans : lo < hi) (inside : hi ≤ days.length)
    (none_ : ∀ i, lo < i → i < hi → s.breaksAt days i = false) :
    ∃ a b, (a, b) ∈ stretches (s.starts days) ∧ a ≤ lo ∧ hi ≤ b := by
  have some_ : days ≠ [] := List.ne_nil_of_length_pos (by omega)
  have first : ∀ c ∈ (s.starts days).head?, c ≤ lo := by simp [AuditSettings.starts]
  obtain ⟨a, b, mem, low, less⟩ := exists_stretch first ⟨days.length, by simp [AuditSettings.starts], by omega⟩
  refine ⟨a, b, mem, low, ?_⟩
  by_contra short
  have stop := (not_cut_of_mem_stretches (starts_sorted some_) mem).2.1
  rw [AuditSettings.starts, List.append_assoc, List.singleton_append] at stop
  rcases List.mem_cons.mp stop with rfl | stop
  · omega
  · rcases mem_concat stop with break_ | last
    · have clear := none_ b less (by omega)
      rw [(List.mem_filter.mp break_).2] at clear
      contradiction
    · have := last
      omega

end Lemmas

/-! ## What is reported -/

section Reported

variable (s : AuditSettings) (days : List AuditedDay)

/-- What is reported is a range that may be trusted and of these one with the most good days. Nothing is reported only
when there is none. -/
theorem verified_trusted :
    match s.verified days with
    | none => ∀ lo hi, ¬ Trusted s days lo hi
    | some verified =>
      ∃ lo hi, verified = ⟨ordinalAt days lo, ordinalAt days (hi - 1), hi - lo, goodIn days lo hi⟩ ∧
        Trusted s days lo hi ∧ ∀ lo' hi', Trusted s days lo' hi' → goodIn days lo' hi' ≤ goodIn days lo hi := by
  have reach : ∀ lo hi, Trusted s days lo hi →
      ∃ cand ∈ (stretches (s.starts days)).filterMap (trimmed days), goodIn days lo hi ≤ cand.1 := by
    intro lo hi ok
    obtain ⟨a, b, mem, low, high⟩ := exists_stretch_of_breaksAt ok.spans ok.inside fun i => ok.breaksAt
    have spans := ok.spans
    obtain ⟨cand, found⟩ := trimmed_isSome (a := a) (b := b) low (by omega) ok.first
    obtain ⟨count, -, -, -, -, -, all⟩ := trimmed_spec found
    have first := all lo low (by omega) ok.first
    have last := all (hi - 1) (by omega) (by omega) ok.last
    exact ⟨cand, List.mem_filterMap.mpr ⟨(a, b), mem, found⟩, count ▸ goodIn_mono first.1 (by omega)⟩
  rw [AuditSettings.verified, AuditSettings.best]
  rcases foldl_keepBest_none ((stretches (s.starts days)).filterMap (trimmed days)) with
    ⟨none_, kept⟩ | ⟨best, mem, kept, most⟩
  · rw [kept]
    intro lo hi ok
    obtain ⟨cand, mem, -⟩ := reach lo hi ok
    rw [none_] at mem
    exact absurd mem List.not_mem_nil
  · rw [kept]
    obtain ⟨⟨a, b⟩, stretch, found⟩ := List.mem_filterMap.mp mem
    obtain ⟨count, low, spans, high, first, last, -⟩ := trimmed_spec found
    have some_ : days ≠ [] := by
      rintro rfl
      simp [goodDays] at first
    obtain ⟨inside, none_⟩ := stretch_spec some_ stretch
    refine ⟨best.2.1, best.2.2, rfl, ?_, ?_⟩
    · exact trusted_of_breaksAt spans (high.trans inside) first last fun i from_ to_ => none_ i (by omega) (by omega)
    · intro lo' hi' ok
      obtain ⟨cand, there, fewer⟩ := reach lo' hi' ok
      exact (fewer.trans (most cand there)).trans count.le

/-- A week with bad days in it, and one after two months. -/
example : AuditSettings.verified {} [⟨1, false⟩, ⟨2, true⟩, ⟨3, false⟩, ⟨64, false⟩, ⟨65, false⟩, ⟨66, true⟩] =
    some ⟨64, 65, 2, 2⟩ := by with_unfolding_all decide

end Reported

end FreeSwarm.TaskKit
