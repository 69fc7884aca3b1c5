import FreeSwarm.Moe.SlotRuns
import Mathlib.Tactic.Linarith

/-!
# How many missing experts are fetched

With a fraction the reference and the vector program look for the number of fetches for which the
slower of the transfer and the computation on the processor is the least. Both compare the two whole
numbers at the point where the two balance. The vector program computes in 32 bits, which is enough
below `2 ^ 15` experts.
-/

namespace FreeSwarm.Moe.OffloadMoeCache

open FreeSwarm.Foundation

/-! ## The least cost -/

section

variable {m frac : Int}

theorem balance (m frac : Int) :
    m * frac / unit * unit ≤ m * frac ∧ m * frac < (m * frac / unit + 1) * unit := by
  unfold unit
  omega

theorem fetchCost_of_le {f : Int} (below : f * unit ≤ m * frac) :
    fetchCost m frac f = (m - f) * frac := by
  apply max_eq_right
  rw [Int.mul_sub, Int.sub_mul]
  omega

theorem fetchCost_of_ge {f : Int} (above : m * frac ≤ f * unit) :
    fetchCost m frac f = f * (unit - frac) := by
  apply max_eq_left
  rw [Int.mul_sub, Int.sub_mul]
  omega

theorem fetchLimit_le (missing : 0 ≤ m) (some_ : 0 < frac) (le : frac ≤ unit) (maxFetch : Int) :
    0 ≤ fetchLimit m maxFetch frac ∧ fetchLimit m maxFetch frac ≤ m := by
  obtain ⟨below, above⟩ := balance m frac
  have scaled : m * frac ≤ m * unit := Int.mul_le_mul_of_nonneg_left le missing
  have nonneg : 0 ≤ m * frac := Int.mul_nonneg missing some_.le
  have lo : 0 ≤ m * frac / unit := by
    unfold unit
    omega
  have lo_le : m * frac / unit ≤ m := by
    unfold unit at *
    omega
  rw [fetchLimit, if_pos some_]
  simp only
  split
  · exact ⟨lo, lo_le⟩
  · next cheaper =>
    refine ⟨by omega, ?_⟩
    by_contra beyond
    apply cheaper
    have full : m * frac / unit = m := by omega
    rw [fetchCost_of_le below, fetchCost_of_ge above.le, full]
    have cost : 0 ≤ (m + 1) * (unit - frac) :=
      Int.mul_nonneg (by omega) (by omega)
    rwa [Int.sub_self, Int.zero_mul]

theorem fetchCost_fetchLimit_le (some_ : 0 < frac) (le : frac ≤ unit) (maxFetch f : Int) :
    fetchCost m frac (fetchLimit m maxFetch frac) ≤ fetchCost m frac f := by
  obtain ⟨below, above⟩ := balance m frac
  have chosen : fetchCost m frac (fetchLimit m maxFetch frac) =
      min (fetchCost m frac (m * frac / unit)) (fetchCost m frac (m * frac / unit + 1)) := by
    rw [fetchLimit, if_pos some_]
    simp only
    split
    · next cheaper => exact (min_eq_left cheaper).symm
    · next dearer => exact (min_eq_right (not_le.mp dearer).le).symm
  rw [chosen]
  by_cases before : f ≤ m * frac / unit
  · apply (min_le_left _ _).trans
    rw [fetchCost_of_le below]
    apply le_trans _ (le_max_right _ _)
    exact Int.mul_le_mul_of_nonneg_right (by omega) some_.le
  · apply (min_le_right _ _).trans
    rw [fetchCost_of_ge above.le]
    apply le_trans _ (le_max_left _ _)
    exact Int.mul_le_mul_of_nonneg_right (by omega) (by omega)

/-! ## 32 bits -/

theorem wrap32_eq {x : Int} (low : -2147483648 ≤ x) (high : x < 2147483648) : wrap32 x = x := by
  apply Int.bmod_eq_of_le
  · omega
  · omega

/-- Below `2 ^ 15` missing experts nothing wraps around. -/
theorem kernelFetchLimit_eq (missing : 0 ≤ m) (few : m < 32768) (nonneg : 0 ≤ frac)
    (le : frac ≤ unit) (maxFetch : Int) :
    kernelFetchLimit m maxFetch frac = fetchLimit m maxFetch frac := by
  rw [kernelFetchLimit, fetchLimit]
  split
  · next some_ =>
    obtain ⟨below, above⟩ := balance m frac
    have scaled : m * frac ≤ m * unit := Int.mul_le_mul_of_nonneg_left le missing
    have product : 0 ≤ m * frac := Int.mul_nonneg missing nonneg
    unfold unit at *
    rw [wrap32_eq (by omega) (by omega)]
    have lo : 0 ≤ m * frac / 65536 ∧ m * frac / 65536 ≤ m := by omega
    generalize m * frac / 65536 = f at *
    have transfer : 0 ≤ f * (65536 - frac) ∧ f * (65536 - frac) ≤ f * 65536 :=
      ⟨Int.mul_nonneg lo.1 (by omega), Int.mul_le_mul_of_nonneg_left (by omega) lo.1⟩
    have rest : 0 ≤ (m - f) * frac ∧ (m - f) * frac ≤ (m - f) * 65536 :=
      ⟨Int.mul_nonneg (by omega) nonneg, Int.mul_le_mul_of_nonneg_left le (by omega)⟩
    have transfer' : (f + 1) * (65536 - frac) = f * (65536 - frac) + (65536 - frac) := by ring
    have rest' : (m - f - 1) * frac = (m - f) * frac - frac := by ring
    have same : m - (f + 1) = m - f - 1 := by omega
    simp only [fetchCost, unit, same]
    rw [wrap32_eq (by omega) (by omega), wrap32_eq (by omega) (by omega),
      wrap32_eq (by omega) (by omega), wrap32_eq (by omega) (by omega)]
  · rfl

end

/-! ## The two programs -/

variable {c : OffloadMoeCache} {byRecency : Bool} {layerId : Nat} {expertIds : List Nat}
  {limit : Int}

theorem fracQ16_mem (scaled : Int) : 0 ≤ fracQ16 scaled ∧ fracQ16 scaled ≤ unit := by
  unfold fracQ16 unit
  omega

variable (byRecency layerId) in
theorem length_misses_le (inside : ∀ expert ∈ expertIds, expert < c.numExperts) :
    (c.misses byRecency layerId expertIds).length ≤ c.numExperts := by
  have within : c.misses byRecency layerId expertIds ⊆ List.range c.numExperts := by
    intro expert mem
    exact List.mem_range.mpr (inside expert (mem_misses.mp mem).1)
  have le := (List.subperm_of_subset nodup_misses within).length_le
  rwa [List.length_range] at le

theorem numMissingFull_served : (c.served byRecency layerId expertIds limit).1.numMissingFull =
    (c.misses byRecency layerId expertIds).length := by
  have frame : ∀ (idx : Nat) (experts : List Nat) (c : OffloadMoeCache),
      (fetchAll layerId idx experts c).numMissingFull = c.numMissingFull := by
    intro idx experts
    induction experts generalizing idx with
    | nil => exact fun _ => rfl
    | cons expert rest ih => exact fun c => ih (idx + 1) _
  cases byRecency <;> exact frame _ _ _

theorem numIndices_served : (c.served byRecency layerId expertIds limit).1.numIndices =
    c.numFetch byRecency layerId expertIds limit := by
  have frame : (fetchAll layerId 0 (c.fetches byRecency layerId expertIds limit)
      (c.opened byRecency layerId expertIds limit)).numIndices = _ := (fetchAll_frame 0 _).2.2.2.2
  cases byRecency <;> exact frame

/-- Between the steps of a cache with fewer than `2 ^ 15` experts in a layer the two programs are
one. -/
theorem Valid.ensureHybrid_agree (valid : c.Valid) (layer : layerId < c.numLayers)
    (inside : ∀ expert ∈ expertIds, expert < c.numExperts) (few : c.numExperts < 32768)
    (maxFetch scaled : Int) :
    c.ensureHybridKernel byRecency layerId expertIds maxFetch (fracQ16 scaled) =
      c.ensureHybridCpu byRecency layerId expertIds maxFetch (fracQ16 scaled) := by
  obtain ⟨nonneg, le⟩ := fracQ16_mem scaled
  have within := length_misses_le byRecency layerId inside
  rw [valid.ensureHybridKernel_eq layer inside, ensureHybridCpu_eq,
    kernelFetchLimit_eq (by omega) (by omega) nonneg le]

/-- Over every run of a cache with fewer than `2 ^ 15` experts in a layer the two programs rewrite
the ids alike and leave the same cache. With a fraction the number of fetches has the least cost of
all splits, and without one it is the cap or the number of missing experts. -/
theorem hybrid_agrees {lruEnsure : Nat → List Nat → OffloadMoeCache → OffloadMoeCache × List Int}
    {numLayers numExperts cacheSize : Nat} {slotLimit : Option Nat} {start : OffloadMoeCache}
    (correct : LruCorrect lruEnsure)
    (created : create numLayers numExperts cacheSize slotLimit = some start)
    (run : Reaches (Event.apply byRecency lruEnsure) Event.Routed start c)
    (layer : layerId < c.numLayers) (inside : ∀ expert ∈ expertIds, expert < c.numExperts)
    (few : c.numExperts < 32768) (maxFetch scaled : Int) :
    c.ensureHybridKernel byRecency layerId expertIds maxFetch (fracQ16 scaled) =
      c.ensureHybridCpu byRecency layerId expertIds maxFetch (fracQ16 scaled) ∧
    let after := (c.ensureHybridCpu byRecency layerId expertIds maxFetch (fracQ16 scaled)).1
    (0 < fracQ16 scaled → 0 ≤ after.numIndices ∧ after.numIndices ≤ after.numMissingFull ∧
      ∀ f, 0 ≤ f → f ≤ after.numMissingFull →
        fetchCost after.numMissingFull (fracQ16 scaled) after.numIndices ≤
          fetchCost after.numMissingFull (fracQ16 scaled) f) ∧
    (fracQ16 scaled = 0 → after.numIndices = min after.numMissingFull maxFetch) := by
  obtain ⟨nonneg, le⟩ := fracQ16_mem scaled
  refine ⟨(valid_of_run correct created run).ensureHybrid_agree layer inside few maxFetch scaled, ?_⟩
  rw [ensureHybridCpu_eq]
  simp only [numIndices_served, numMissingFull_served, numFetch]
  constructor
  · intro some_
    have missing := Int.natCast_nonneg (c.misses byRecency layerId expertIds).length
    obtain ⟨low, high⟩ := fetchLimit_le missing some_ le maxFetch
    rw [min_eq_right high]
    exact ⟨low, high, fun f _ _ => fetchCost_fetchLimit_le some_ le maxFetch f⟩
  · intro none_
    rw [none_, fetchLimit, if_neg (lt_irrefl _)]

theorem length_misses_range (empty : ∀ expert < c.numExperts, c.slotOf layerId expert = -1) :
    (c.misses byRecency layerId (List.range c.numExperts)).length = c.numExperts := by
  have perm : (c.misses byRecency layerId (List.range c.numExperts)).Perm
      (List.range c.numExperts) := by
    rw [List.perm_ext_iff_of_nodup nodup_misses List.nodup_range]
    intro expert
    rw [mem_misses]
    exact and_iff_left_of_imp fun mem => empty expert (List.mem_range.mp mem)
  rw [perm.length_eq, List.length_range]

def emptyCache (numExperts : Nat) : OffloadMoeCache where
  numLayers := 1
  numExperts := numExperts
  cacheSize := numExperts
  slotLimit := none
  slotForId := fun _ => -1
  idOfSlot := fun _ => -1
  usage := fun _ => 0
  step := 0
  activeMask := fun _ => 0
  evictSlots := fun _ => 0
  srcIndices := fun _ => 0
  numIndices := 0
  numMissingFull := 0
  expertRecency := fun _ => -1

theorem numIndices_emptyCache (numExperts : Nat) (maxFetch frac : Int) :
    ((emptyCache numExperts).ensureHybridCpu true 0 (List.range numExperts) maxFetch
      frac).1.numIndices = min (numExperts : Int) (fetchLimit numExperts maxFetch frac) := by
  have length : ((emptyCache numExperts).misses true 0 (List.range numExperts)).length =
      numExperts := length_misses_range fun _ _ => rfl
  rw [ensureHybridCpu_eq, numIndices_served, numFetch, length]

theorem numIndices_kernel_emptyCache (numExperts : Nat) (maxFetch frac : Int) :
    ((emptyCache numExperts).ensureHybridKernel true 0 (List.range numExperts) maxFetch
      frac).1.numIndices = min (numExperts : Int) (kernelFetchLimit numExperts maxFetch frac) := by
  have valid : (emptyCache numExperts).Valid :=
    valid_of_empty le_rfl rfl (fun _ _ => rfl) (fun _ _ => rfl) fun _ _ => rfl
  have length : ((emptyCache numExperts).misses true 0 (List.range numExperts)).length =
      numExperts := length_misses_range fun _ _ => rfl
  have inside : ∀ expert ∈ List.range numExperts, expert < (emptyCache numExperts).numExperts :=
    fun _ mem => List.mem_range.mp mem
  rw [valid.ensureHybridKernel_eq Nat.one_pos inside, numIndices_served, numFetch, length]

/-- With a cap and no fraction a split that costs more than another is taken; and with `2 ^ 15`
missing experts the reference fetches all of them and the vector program none. -/
theorem hybrid_differs :
    ((emptyCache 1).ensureHybridCpu true 0 (List.range 1) 1 (fracQ16 0)).1.numIndices = 1 ∧
    fetchCost 1 (fracQ16 0) 0 < fetchCost 1 (fracQ16 0) 1 ∧
    ((emptyCache 32768).ensureHybridCpu true 0 (List.range 32768) 0
      (fracQ16 65536)).1.numIndices = 32768 ∧
    ((emptyCache 32768).ensureHybridKernel true 0 (List.range 32768) 0
      (fracQ16 65536)).1.numIndices = -32768 := by
  rw [numIndices_emptyCache, numIndices_emptyCache, numIndices_kernel_emptyCache]
  decide

/-- A layer is put in place, and both programs take a step of the other one. -/
theorem hybrid_agrees_smallCache :
    (smallCache.materializeLayer 0).ensureHybridKernel true 1 [1, 0, 1] 1 (fracQ16 32768) =
      (smallCache.materializeLayer 0).ensureHybridCpu true 1 [1, 0, 1] 1 (fracQ16 32768) := by
  have created : create 2 2 3 none = some smallCache := by
    unfold create
    exact if_pos ⟨by decide, nofun⟩
  have routed : (Event.materializeLayer 0).Routed smallCache := Nat.two_pos
  have correct : LruCorrect fun layerId expertIds c =>
      c.served true layerId expertIds c.numExperts :=
    fun _ _ _ valid layer inside => valid.served layer inside
  exact (hybrid_agrees correct created (.step .refl routed rfl) (by decide) (by decide)
    (by decide) 1 32768).1

end FreeSwarm.Moe.OffloadMoeCache
