import Mathlib.Algebra.Order.Group.Int
import Mathlib.Algebra.Order.Ring.Int
import Mathlib.Tactic.Linarith
import Mathlib.Tactic.Ring

/-!
# How a budget of memory is split

The memory that is left beside the weights holds the slots of the experts and the pages of the cache. The
experts come first: they take what is left behind a reserve of pages, and the pages take the rest.
-/

namespace FreeSwarm.Engine

/-- What `plan_cache_budget` is given. -/
structure Request where
  /-- `budget_bytes`: the memory for the slots and the pages together. -/
  budgetBytes : Int
  /-- `per_expert_bytes`: the size of a slot. -/
  perExpertBytes : Nat
  /-- `cache_per_page`: the size of a page. -/
  cachePerPage : Nat
  /-- `num_experts`: the experts of one layer. -/
  numExperts : Nat
  /-- `total_experts`: the experts of all layers. -/
  totalExperts : Nat
  /-- `prefill_overlap`: the buffers of two layers are asked for. -/
  prefillOverlap : Bool
  /-- `kv_reserve_pages`: the pages that the experts leave. -/
  kvReservePages : Nat
  /-- `max_slots`: the cap on the slots. -/
  maxSlots : Nat

/-- What `plan_cache_budget` returns. -/
structure Plan where
  /-- `moe_cache_size`: the slots. -/
  moeCacheSize : Int
  /-- `num_pages`: the pages. -/
  numPages : Int
  /-- `prefill_overlap`: two layers overlap. -/
  prefillOverlap : Bool
  deriving DecidableEq

/-- The assertion that fails. -/
inductive Refusal where
  | perExpertBytes
  | cachePerPage
  | slotCap (hi lo : Int)
  | tooSmall (moeCacheSize numPages total budgetBytes : Int)
  | notEnough
  deriving DecidableEq

/-- The text of the assertion. -/
def Refusal.message : Refusal → String
  | .perExpertBytes => "per_expert_bytes must be positive"
  | .cachePerPage => "cache_per_page must be positive (owned-KV models unsupported here)"
  | .slotCap hi lo => "slot cap " ++ toString hi ++ " below the minimum " ++ toString lo ++ " slots"
  | .tooSmall moeCacheSize numPages total budgetBytes =>
    "cache budget too small: minimum plan (moe=" ++ toString moeCacheSize ++ " slots, kv=" ++
      toString numPages ++ " pages) needs " ++ toString total ++ " B > budget " ++
      toString budgetBytes ++
      " B (raise memory_ratio, lower kv_reserve_tokens, or free GPU memory)"
  | .notEnough => "not enough memory for KV cache after MoE allocation"

/-- The assertion is about the budget, not about the other values. -/
def Refusal.OfBudget : Refusal → Prop
  | .tooSmall .. => True
  | .notEnough => True
  | _ => False

/-- `required_bytes`: what some slots and pages take. -/
def requiredBytes (moeCacheSize numPages : Int) (perExpertBytes cachePerPage : Nat) : Int :=
  moeCacheSize * perExpertBytes + numPages * cachePerPage

namespace Request

variable (r : Request)

/-- `hi`: the most slots. -/
def hi : Int := min r.totalExperts r.maxSlots

/-- `overlap`, as the cap allows it. -/
def overlapFits : Bool := r.prefillOverlap && decide (2 * (r.numExperts : Int) ≤ r.hi)

/-- `lo`: the fewest slots. -/
def lo : Int := if r.overlapFits then 2 * r.numExperts else r.numExperts

/-- `raw`: the slots that the budget holds behind the reserve. -/
def raw : Int := (r.budgetBytes - r.kvReservePages * r.cachePerPage) / r.perExpertBytes

def moeCacheSize : Int := max r.lo (min r.raw r.hi)

def numPages : Int :=
  max ((r.budgetBytes - r.moeCacheSize * r.perExpertBytes) / r.cachePerPage) r.kvReservePages

/-- `plan_cache_budget`: the slots, the pages and the overlap, or the assertion that fails. -/
def planCacheBudget : Except Refusal Plan :=
  if r.perExpertBytes = 0 then .error .perExpertBytes
  else if r.cachePerPage = 0 then .error .cachePerPage
  else if r.hi < r.lo then .error (.slotCap r.hi r.lo)
  else
    let total := requiredBytes r.moeCacheSize r.numPages r.perExpertBytes r.cachePerPage
    if r.budgetBytes < total then
      .error (.tooSmall r.moeCacheSize r.numPages total r.budgetBytes)
    else if r.numPages ≤ 1 then .error .notEnough
    else .ok ⟨r.moeCacheSize, r.numPages,
      r.overlapFits && decide (2 * (r.numExperts : Int) ≤ r.moeCacheSize)⟩

/-! ## What a plan is for -/

def Fits (slots pages : Int) : Prop :=
  requiredBytes slots pages r.perExpertBytes r.cachePerPage ≤ r.budgetBytes

instance (slots pages : Int) : Decidable (r.Fits slots pages) :=
  inferInstanceAs (Decidable (_ ≤ _))

/-- A plan that uses the budget as far as it goes. -/
structure Good (plan : Plan) : Prop where
  fits : r.Fits plan.moeCacheSize plan.numPages
  atLeast : r.numExperts ≤ plan.moeCacheSize
  atMost : plan.moeCacheSize ≤ r.hi
  reserve : r.kvReservePages ≤ plan.numPages
  pages : 1 < plan.numPages
  overlap : plan.prefillOverlap = true →
    r.prefillOverlap = true ∧ 2 * (r.numExperts : Int) ≤ plan.moeCacheSize
  mostSlots : ∀ slots, plan.moeCacheSize < slots → slots ≤ r.hi → ¬r.Fits slots r.kvReservePages
  mostPages : ¬r.Fits plan.moeCacheSize (plan.numPages + 1)

def LeastFits : Prop := r.Fits r.numExperts (max 2 (r.kvReservePages : Int))

instance : Decidable r.LeastFits := inferInstanceAs (Decidable (r.Fits _ _))

/-- What is returned is a good plan, and a budget is refused only if the least plan does not fit. -/
structure Planned : Prop where
  sound : ∀ plan, r.planCacheBudget = .ok plan → r.Good plan
  complete : ∀ refusal, r.planCacheBudget = .error refusal → refusal.OfBudget → ¬r.LeastFits

/-- The budget that the code can split: it is too small for the least plan, or it holds the slots of two
layers where their overlap is asked for and the cap allows it, and either the reserve is two pages or
more, or two pages are left behind all slots, or the slots that are taken leave what is missing to two
pages. -/
def Split : Prop :=
  ¬r.LeastFits ∨
    ((r.overlapFits = true → r.Fits (2 * r.numExperts) r.kvReservePages) ∧
      (2 ≤ r.kvReservePages ∨ r.Fits r.hi 2 ∨
        (2 - (r.kvReservePages : Int)) * r.cachePerPage ≤
          (r.budgetBytes - r.kvReservePages * r.cachePerPage) % r.perExpertBytes))

instance : Decidable r.Split := inferInstanceAs (Decidable (_ ∨ _))

/-! ## What is returned -/

variable {r} {slots pages : Int}

theorem fits_iff : r.Fits slots pages ↔
    slots * r.perExpertBytes + pages * r.cachePerPage ≤ r.budgetBytes := Iff.rfl

theorem Fits.mono (fits : r.Fits slots pages) {slots' pages' : Int} (fewer : slots' ≤ slots)
    (fewer' : pages' ≤ pages) : r.Fits slots' pages' := by
  have slotBytes : slots' * r.perExpertBytes ≤ slots * r.perExpertBytes :=
    mul_le_mul_of_nonneg_right fewer (Int.natCast_nonneg _)
  have pageBytes : pages' * r.cachePerPage ≤ pages * r.cachePerPage :=
    mul_le_mul_of_nonneg_right fewer' (Int.natCast_nonneg _)
  rw [fits_iff] at fits ⊢
  omega

theorem le_raw_iff (sized : 0 < r.perExpertBytes) :
    slots ≤ r.raw ↔ r.Fits slots r.kvReservePages := by
  rw [raw, Int.le_ediv_iff_mul_le (by omega), fits_iff]
  omega

theorem le_rest_iff (sized : 0 < r.cachePerPage) :
    pages ≤ (r.budgetBytes - slots * r.perExpertBytes) / r.cachePerPage ↔ r.Fits slots pages := by
  rw [Int.le_ediv_iff_mul_le (by omega), fits_iff]
  omega

/-- The plan is within the budget exactly if the floor is, with the reserve. -/
theorem fits_plan_iff (sized : 0 < r.perExpertBytes) (paged : 0 < r.cachePerPage) :
    r.Fits r.moeCacheSize r.numPages ↔ r.lo ≤ r.raw := by
  rw [← le_rest_iff paged, numPages, max_le_iff, and_iff_right le_rfl, le_rest_iff paged,
    ← le_raw_iff sized, moeCacheSize, max_le_iff]
  exact and_iff_left (min_le_left _ _)

theorem moeCacheSize_of_fits (floor : r.lo ≤ r.raw) (cap : r.lo ≤ r.hi) :
    r.moeCacheSize = min r.raw r.hi :=
  max_eq_right (le_min floor cap)

theorem numPages_of_fits (sized : 0 < r.perExpertBytes) (paged : 0 < r.cachePerPage)
    (floor : r.lo ≤ r.raw) :
    r.numPages = (r.budgetBytes - r.moeCacheSize * r.perExpertBytes) / r.cachePerPage := by
  have fits := (fits_plan_iff sized paged).mpr floor
  rw [← le_rest_iff paged] at fits
  exact le_antisymm fits (le_max_left _ _)

theorem lo_le_hi (cap : (r.numExperts : Int) ≤ r.hi) : r.lo ≤ r.hi := by
  rw [lo]
  split_ifs with overlap
  · rw [overlapFits, Bool.and_eq_true, decide_eq_true_iff] at overlap
    exact overlap.2
  · exact cap

theorem numExperts_le_lo : (r.numExperts : Int) ≤ r.lo := by
  rw [lo]
  split_ifs <;> omega

theorem planCacheBudget_ok_iff (sized : 0 < r.perExpertBytes) (paged : 0 < r.cachePerPage)
    (cap : (r.numExperts : Int) ≤ r.hi) {plan : Plan} :
    r.planCacheBudget = .ok plan ↔ r.lo ≤ r.raw ∧ 1 < r.numPages ∧
      plan = ⟨r.moeCacheSize, r.numPages,
        r.overlapFits && decide (2 * (r.numExperts : Int) ≤ r.moeCacheSize)⟩ := by
  have within := fits_plan_iff sized paged
  rw [fits_iff] at within
  rw [planCacheBudget, if_neg (by omega), if_neg (by omega), if_neg (by have := lo_le_hi cap; omega)]
  dsimp only [requiredBytes]
  split_ifs with above few
  · have : ¬r.lo ≤ r.raw := fun floor => absurd (within.mpr floor) (by omega)
    simp [this]
  · simp [show ¬1 < r.numPages by omega]
  · have floor := within.mp (by omega)
    simp [floor, show 1 < r.numPages by omega, eq_comm]

theorem good_of_ok (sized : 0 < r.perExpertBytes) (paged : 0 < r.cachePerPage)
    (cap : (r.numExperts : Int) ≤ r.hi) {plan : Plan} (returned : r.planCacheBudget = .ok plan) :
    r.Good plan := by
  obtain ⟨floor, two, rfl⟩ := (planCacheBudget_ok_iff sized paged cap).mp returned
  have slots := moeCacheSize_of_fits floor (lo_le_hi cap)
  refine ⟨(fits_plan_iff sized paged).mpr floor, ?_, ?_, le_max_right _ _, two, ?_, ?_, ?_⟩
  · exact numExperts_le_lo.trans (le_max_left _ _)
  · exact slots ▸ min_le_right _ _
  · intro overlap
    rw [Bool.and_eq_true, decide_eq_true_iff, overlapFits, Bool.and_eq_true] at overlap
    exact ⟨overlap.1.1, overlap.2⟩
  · intro more above within fits
    have behind := (le_raw_iff sized).mpr fits
    change r.moeCacheSize < more at above
    omega
  · rw [← le_rest_iff paged, ← numPages_of_fits sized paged floor]
    change ¬r.numPages + 1 ≤ r.numPages
    omega

/-- Two pages are left exactly if they are left behind all slots, or the slots behind the reserve leave
what is missing. -/
theorem two_left_iff : r.Fits (min r.raw r.hi) 2 ↔ r.Fits r.hi 2 ∨
    (2 - (r.kvReservePages : Int)) * r.cachePerPage ≤
      (r.budgetBytes - r.kvReservePages * r.cachePerPage) % r.perExpertBytes := by
  have divided := Int.mul_ediv_add_emod (r.budgetBytes - r.kvReservePages * r.cachePerPage)
    r.perExpertBytes
  rw [mul_comm, ← raw] at divided
  have reserved : (2 - (r.kvReservePages : Int)) * r.cachePerPage =
      2 * r.cachePerPage - r.kvReservePages * r.cachePerPage := by ring
  have here : r.Fits r.raw 2 ↔ (2 - (r.kvReservePages : Int)) * r.cachePerPage ≤
      (r.budgetBytes - r.kvReservePages * r.cachePerPage) % r.perExpertBytes := by
    rw [fits_iff, reserved]
    omega
  rw [← here]
  rcases le_total r.raw r.hi with below | above
  · -- the slots are those behind the reserve, and all slots would take no less
    rw [min_eq_left below]
    exact ⟨.inr, Or.rec (fun all => all.mono below le_rfl) id⟩
  · rw [min_eq_right above]
    exact ⟨.inl, Or.rec id fun taken => taken.mono above le_rfl⟩

theorem ok_iff_split (sized : 0 < r.perExpertBytes) (paged : 0 < r.cachePerPage)
    (cap : (r.numExperts : Int) ≤ r.hi) (least : r.LeastFits) :
    (∃ plan, r.planCacheBudget = .ok plan) ↔ r.Split := by
  have floor : r.lo ≤ r.raw ↔ (r.overlapFits = true → r.Fits (2 * r.numExperts) r.kvReservePages) := by
    rw [le_raw_iff sized, lo]
    split_ifs with overlap
    · exact ⟨fun fits _ => fits, fun fits => fits overlap⟩
    · exact ⟨fun _ asked => absurd asked overlap, fun _ => least.mono le_rfl (le_max_right _ _)⟩
  have pages (fits : r.lo ≤ r.raw) : 1 < r.numPages ↔ 2 ≤ r.kvReservePages ∨ r.Fits r.hi 2 ∨
      (2 - (r.kvReservePages : Int)) * r.cachePerPage ≤
        (r.budgetBytes - r.kvReservePages * r.cachePerPage) % r.perExpertBytes := by
    rw [numPages_of_fits sized paged fits, Int.lt_iff_add_one_le, one_add_one_eq_two,
      le_rest_iff paged, moeCacheSize_of_fits fits (lo_le_hi cap)]
    by_cases less : r.kvReservePages < 2
    · rw [two_left_iff]
      exact ⟨.inr, Or.rec (fun enough => absurd less (by omega)) id⟩
    · refine iff_of_true ?_ (.inl (by omega))
      exact ((le_raw_iff sized).mp (min_le_left _ _)).mono le_rfl (by omega)
  rw [Split, or_iff_right (not_not.mpr least), ← floor]
  simp only [planCacheBudget_ok_iff sized paged cap]
  constructor
  · rintro ⟨plan, fits, two, -⟩
    exact ⟨fits, (pages fits).mp two⟩
  · rintro ⟨fits, two⟩
    exact ⟨_, fits, (pages fits).mpr two, rfl⟩

theorem ofBudget_of_error (sized : 0 < r.perExpertBytes) (paged : 0 < r.cachePerPage)
    (cap : (r.numExperts : Int) ≤ r.hi) {refusal : Refusal}
    (refused : r.planCacheBudget = .error refusal) : refusal.OfBudget := by
  rw [planCacheBudget, if_neg (by omega), if_neg (by omega),
    if_neg (by have := lo_le_hi cap; omega)] at refused
  dsimp only at refused
  split_ifs at refused
  · cases refused
    trivial
  · cases refused
    trivial

/-- What is planned is good, and a budget is refused only if the least plan does not fit, exactly if the
budget is one that the code can split. -/
theorem planned_iff (r : Request) (sized : 0 < r.perExpertBytes) (paged : 0 < r.cachePerPage)
    (cap : (r.numExperts : Int) ≤ r.hi) : r.Planned ↔ r.Split := by
  constructor
  · intro planned
    by_cases least : r.LeastFits
    · rw [← ok_iff_split sized paged cap least]
      cases outcome : r.planCacheBudget with
      | ok plan => exact ⟨plan, rfl⟩
      | error refusal =>
        exact absurd least (planned.complete refusal outcome (ofBudget_of_error sized paged cap outcome))
    · exact .inl least
  · intro split
    refine ⟨fun plan => good_of_ok sized paged cap, fun refusal refused _ least => ?_⟩
    obtain ⟨plan, returned⟩ := (ok_iff_split sized paged cap least).mpr split
    rw [returned] at refused
    nomatch refused

def twoLayers : Request := ⟨2000, 100, 10, 4, 8, true, 5, 8⟩

theorem twoLayers_planned : twoLayers.Planned :=
  (planned_iff twoLayers (by decide) (by decide) (by decide)).mpr (by decide)

/-- A budget that holds the slots of one layer and some pages, where two layers are asked for. -/
def oneLayer : Request := ⟨500, 100, 10, 4, 8, true, 2, 8⟩

/-- The budget is refused, and the least plan fits. -/
theorem oneLayer_refused : ¬oneLayer.Planned := fun planned =>
  planned.complete (.tooSmall 8 2 820 500) (by decide) trivial (by decide)

/-- With no reserve, the slots leave no page. -/
example : (⟨500, 100, 10, 4, 8, false, 0, 8⟩ : Request).planCacheBudget = .error .notEnough := by decide

end Request
end FreeSwarm.Engine
