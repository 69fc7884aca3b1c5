import FreeSwarm.Foundation.Machine
import FreeSwarm.Moe.SlotKernel

/-!
# The offload cache over a run

A run is any sequence of steps of the two programs, of the cache that is not split, and of the steps
that put a layer in place, empty a buffer, empty the cache or change its size. The program of the
cache that is not split is not part of the repository and is a parameter.
-/

namespace FreeSwarm.Moe.OffloadMoeCache

open FreeSwarm.Foundation

/-! ## A layer is put in place -/

variable {c : OffloadMoeCache} {layerId : Nat}

def InLayer (c : OffloadMoeCache) (layerId slot : Nat) : Prop :=
  ((layerId * c.numExperts : Nat) : Int) ≤ c.idOfSlot slot ∧
    c.idOfSlot slot < (layerId * c.numExperts : Nat) + c.numExperts

instance decidableInLayer (c : OffloadMoeCache) (layerId : Nat) : DecidablePred (c.InLayer layerId) :=
  fun _ => inferInstanceAs (Decidable (_ ∧ _))

theorem idOfSlot_materializeLayer (room : c.numExperts ≤ c.cacheSize) {slot : Nat}
    (lt : slot < c.cacheSize) : (c.materializeLayer layerId).idOfSlot slot =
      if slot < c.numExperts then ((layerId * c.numExperts + slot : Nat) : Int)
      else if c.InLayer layerId slot then -1 else c.idOfSlot slot := by
  have lanes := le_block (max c.numExperts c.cacheSize)
  have lane : slot < block (max c.numExperts c.cacheSize) := by omega
  show storeLanes _ _ _ _ (storeLanes _ _ _ _ _) slot = _
  rw [storeLanes_id, storeLanes_id]
  simp only [decide_eq_true_iff, lane, lt, if_pos, true_and]
  rfl

theorem usage_materializeLayer (room : c.numExperts ≤ c.cacheSize) {slot : Nat}
    (lt : slot < c.cacheSize) : (c.materializeLayer layerId).usage slot =
      if slot < c.numExperts then c.step + 1
      else if c.InLayer layerId slot then 0 else c.usage slot := by
  have lanes := le_block (max c.numExperts c.cacheSize)
  have lane : slot < block (max c.numExperts c.cacheSize) := by omega
  show storeLanes _ _ _ _ (storeLanes _ _ _ _ _) slot = _
  rw [storeLanes_id, storeLanes_id]
  simp only [decide_eq_true_iff, lane, lt, if_pos, true_and]
  rfl

theorem slotForId_materializeLayer (room : c.numExperts ≤ c.cacheSize) (id : Nat) :
    (c.materializeLayer layerId).slotForId id =
      if layerId * c.numExperts ≤ id ∧ id < layerId * c.numExperts + c.numExperts
      then (id : Int) - (layerId * c.numExperts : Nat)
      else if ∃ slot < c.numExperts, ¬ c.InLayer layerId slot ∧ c.idOfSlot slot = id then -1
      else c.slotForId id := by
  have lanes := le_block (max c.numExperts c.cacheSize)
  show storeLanes _ _ (layerId * c.numExperts + ·) _ (storeLanes _ _ _ _ _) id = _
  rw [storeLanes_range]
  have here : (layerId * c.numExperts ≤ id ∧
      id < layerId * c.numExperts + block (max c.numExperts c.cacheSize) ∧
        decide (id - layerId * c.numExperts < c.numExperts) = true) ↔
      layerId * c.numExperts ≤ id ∧ id < layerId * c.numExperts + c.numExperts := by
    rw [decide_eq_true_iff]
    omega
  rw [if_congr here rfl rfl]
  split
  · next inside => omega
  · rw [storeLanes, storeEach_const]
    refine if_congr ?_ rfl rfl
    constructor
    · rintro ⟨slot, -, on, same⟩
      simp only [Bool.and_eq_true, decide_eq_true_iff, Bool.not_eq_true', decide_eq_false_iff_not]
        at on
      obtain ⟨⟨expert, old⟩, other⟩ := on
      have inside : slot < c.cacheSize := by omega
      change (if slot < c.cacheSize then c.idOfSlot slot else -1).toNat = id at same
      rw [if_pos inside] at old same other
      exact ⟨slot, expert, fun layer => other ⟨inside, layer⟩, by omega⟩
    · rintro ⟨slot, expert, other, same⟩
      have inside : slot < c.cacheSize := by omega
      refine ⟨slot, List.mem_range.mpr (by omega), ?_, ?_⟩
      · simp only [Bool.and_eq_true, decide_eq_true_iff, Bool.not_eq_true',
          decide_eq_false_iff_not, if_pos inside]
        exact ⟨⟨expert, by omega⟩, fun layer => other layer.2⟩
      · show (if slot < c.cacheSize then c.idOfSlot slot else -1).toNat = id
        rw [if_pos inside]
        omega

theorem Coherent.materializeLayer (coherent : c.Coherent) (room : c.numExperts ≤ c.cacheSize)
    (layer : layerId < c.numLayers) : (c.materializeLayer layerId).Coherent := by
  have inside : ∀ expert < c.numExperts, layerId * c.numExperts + expert < c.totalIds :=
    fun expert lt => id_lt layer lt
  constructor
  · intro id lt
    change id < c.totalIds at lt
    change _ ∨ ∃ slot < c.cacheSize, _
    rw [slotForId_materializeLayer room]
    split
    · next here =>
      right
      refine ⟨id - layerId * c.numExperts, by omega, by omega, ?_⟩
      rw [idOfSlot_materializeLayer room (by omega), if_pos (by omega)]
      omega
    · next outside =>
      split
      · exact .inl rfl
      · next apart =>
        rcases coherent.slot id lt with none_ | ⟨slot, lt', same, back⟩
        · exact .inl none_
        · right
          have other : ¬ c.InLayer layerId slot := by
            rw [InLayer, back]
            omega
          have above : ¬ slot < c.numExperts := fun below => apart ⟨slot, below, other, back⟩
          refine ⟨slot, lt', same, ?_⟩
          rw [idOfSlot_materializeLayer room lt', if_neg above, if_neg other, back]
  · intro slot lt
    change slot < c.cacheSize at lt
    change _ ∨ ∃ id < c.totalIds, _
    rw [idOfSlot_materializeLayer room lt]
    split
    · next below =>
      right
      refine ⟨layerId * c.numExperts + slot, inside slot below, rfl, ?_⟩
      rw [slotForId_materializeLayer room, if_pos (by omega)]
      omega
    · next above =>
      split
      · exact .inl rfl
      · next other =>
        rcases coherent.id slot lt with free | ⟨id, lt', same, back⟩
        · exact .inl free
        · right
          refine ⟨id, lt', same, ?_⟩
          rw [slotForId_materializeLayer room, if_neg, if_neg, back]
          · rintro ⟨s, below, -, owner⟩
            -- an expert in two slots would be in one
            rcases coherent.id s (by omega) with free | ⟨id', -, same', back'⟩
            · omega
            · obtain rfl : id' = id := by omega
              omega
          · rw [InLayer, same] at other
            omega

theorem Valid.materializeLayer (valid : c.Valid) (layer : layerId < c.numLayers) :
    (c.materializeLayer layerId).Valid := by
  refine ⟨valid.coherent.materializeLayer valid.room layer, valid.room, ?_, ?_⟩
  · show 0 ≤ c.step + 1
    have counted := valid.counted
    omega
  · intro slot lt
    change slot < c.cacheSize at lt
    have used := valid.used slot lt
    have counted := valid.counted
    rw [usage_materializeLayer valid.room lt]
    show _ ≤ c.step + 1
    split
    · exact le_rfl
    · split
      · omega
      · omega

/-! ## A buffer is emptied -/

theorem Valid.invalidatePrefillBuffer (valid : c.Valid) (bufferId : Nat) :
    (c.invalidatePrefillBuffer bufferId).Valid := by
  have slots : ∀ id, (c.invalidatePrefillBuffer bufferId).slotForId id =
      if ∃ slot < c.cacheSize, c.InBuffer bufferId slot ∧ c.idOfSlot slot = id then -1
      else c.slotForId id := by
    intro id
    show storeEach _ _ _ (fun _ => -1) _ id = _
    rw [storeEach_const]
    refine if_congr ?_ rfl rfl
    simp only [List.mem_range, Bool.and_eq_true, decide_eq_true_iff]
    constructor
    · rintro ⟨slot, lt, ⟨within, old⟩, same⟩
      exact ⟨slot, lt, within, by omega⟩
    · rintro ⟨slot, lt, within, same⟩
      exact ⟨slot, lt, ⟨within, by omega⟩, by omega⟩
  refine ⟨⟨?_, ?_⟩, valid.room, valid.counted, ?_⟩
  · intro id lt
    rw [slots]
    split
    · exact .inl rfl
    · next apart =>
      rcases valid.coherent.slot id lt with none_ | ⟨slot, lt', same, back⟩
      · exact .inl none_
      · exact .inr ⟨slot, lt', same,
          (if_neg fun within => apart ⟨slot, lt', within, back⟩).trans back⟩
  · intro slot lt
    change (if c.InBuffer bufferId slot then -1 else c.idOfSlot slot) = -1 ∨ ∃ id < c.totalIds,
      (if c.InBuffer bufferId slot then -1 else c.idOfSlot slot) = id ∧ _
    by_cases within : c.InBuffer bufferId slot
    · exact .inl (if_pos within)
    · rw [if_neg within]
      rcases valid.coherent.id slot lt with free | ⟨id, lt', same, back⟩
      · exact .inl free
      · refine .inr ⟨id, lt', same, ?_⟩
        rw [slots, if_neg, back]
        rintro ⟨s, lt'', within', owner⟩
        rcases valid.coherent.id s lt'' with free | ⟨id', -, same', back'⟩
        · omega
        · obtain rfl : id' = id := by omega
          obtain rfl : s = slot := by omega
          exact within within'
  · intro slot lt
    change (if c.InBuffer bufferId slot then 0 else c.usage slot) ≤ c.step
    have counted := valid.counted
    have used := valid.used slot lt
    split
    · exact counted
    · exact used

/-! ## An empty cache -/

theorem valid_of_empty (room : c.numExperts ≤ c.cacheSize) (zero : c.step = 0)
    (slots : ∀ id < c.totalIds, c.slotForId id = -1)
    (ids : ∀ slot < c.cacheSize, c.idOfSlot slot = -1)
    (unused : ∀ slot < c.cacheSize, c.usage slot = 0) : c.Valid := by
  refine ⟨⟨fun id lt => .inl (slots id lt), fun slot lt => .inl (ids slot lt)⟩, room, ?_, ?_⟩
  · omega
  · intro slot lt
    rw [unused slot lt, zero]

theorem valid_create {numLayers numExperts cacheSize : Nat} {slotLimit : Option Nat}
    (created : create numLayers numExperts cacheSize slotLimit = some c) : c.Valid := by
  obtain ⟨size, rfl⟩ := of_guard created
  exact valid_of_empty size.1 rfl (fun _ _ => rfl) (fun _ _ => rfl) fun _ _ => rfl

theorem Valid.reset (valid : c.Valid) : c.reset.Valid := by
  apply valid_of_empty
  · exact valid.room
  · rfl
  · exact fun id lt => if_pos lt
  · exact fun slot lt => if_pos lt
  · exact fun slot lt => if_pos lt

theorem valid_rebuild {c' : OffloadMoeCache} {cacheSize : Nat}
    (rebuilt : c.rebuild cacheSize = some c') : c'.Valid := by
  obtain ⟨size, rfl⟩ := of_guard rebuilt
  exact valid_of_empty size.1 rfl (fun _ _ => rfl) (fun _ _ => rfl) fun _ _ => rfl

/-! ## Runs -/

/-- What the cache is asked for. -/
inductive Event
  | ensureExpertsHybrid (onDevice : Bool) (layerId : Nat) (expertIds : List Nat)
    (maxFetch scaled : Int)
  | ensureExperts (layerId : Nat) (expertIds : List Nat)
  | materializeLayer (layerId : Nat)
  | invalidatePrefillBuffer (bufferId : Nat)
  | reset
  | rebuild (cacheSize : Nat)

namespace Event

/-- The layers and the experts are those of the model. -/
def Routed (c : OffloadMoeCache) : Event → Prop
  | ensureExpertsHybrid _ layerId expertIds _ _ | ensureExperts layerId expertIds =>
    layerId < c.numLayers ∧ ∀ expert ∈ expertIds, expert < c.numExperts
  | materializeLayer layerId => layerId < c.numLayers
  | invalidatePrefillBuffer _ | reset | rebuild _ => True

/-- What an event makes of the cache, given the program that ensures all experts. A size that is not
valid leaves it. -/
def apply (byRecency : Bool) (lruEnsure : Nat → List Nat → OffloadMoeCache → OffloadMoeCache × List Int)
    (c : OffloadMoeCache) : Event → Option OffloadMoeCache
  | ensureExpertsHybrid onDevice layerId expertIds maxFetch scaled =>
    some (c.ensureExpertsHybrid byRecency onDevice layerId expertIds maxFetch scaled).1
  | ensureExperts layerId expertIds => some (lruEnsure layerId expertIds c).1
  | materializeLayer layerId => some (c.materializeLayer layerId)
  | invalidatePrefillBuffer bufferId => some (c.invalidatePrefillBuffer bufferId)
  | reset => some c.reset
  | rebuild cacheSize => some ((c.rebuild cacheSize).getD c)

end Event

/-- The program that ensures all experts of a step is correct: it leaves what holds between the
steps. -/
def LruCorrect (lruEnsure : Nat → List Nat → OffloadMoeCache → OffloadMoeCache × List Int) : Prop :=
  ∀ (c : OffloadMoeCache) (layerId : Nat) (expertIds : List Nat), c.Valid → layerId < c.numLayers →
    (∀ expert ∈ expertIds, expert < c.numExperts) → (lruEnsure layerId expertIds c).1.Valid

variable {byRecency : Bool}
  {lruEnsure : Nat → List Nat → OffloadMoeCache → OffloadMoeCache × List Int}

variable (byRecency) in
theorem Valid.ensureExpertsHybrid_eq {expertIds : List Nat} (valid : c.Valid)
    (layer : layerId < c.numLayers) (inside : ∀ expert ∈ expertIds, expert < c.numExperts)
    (onDevice : Bool) (maxFetch scaled : Int) : ∃ limit,
      c.ensureExpertsHybrid byRecency onDevice layerId expertIds maxFetch scaled =
        c.served byRecency layerId expertIds limit := by
  cases onDevice
  · exact ⟨_, ensureHybridCpu_eq ..⟩
  · exact ⟨_, valid.ensureHybridKernel_eq layer inside maxFetch (fracQ16 scaled)⟩

theorem Valid.apply {c' : OffloadMoeCache} (correct : LruCorrect lruEnsure) (valid : c.Valid)
    (event : Event) (routed : event.Routed c)
    (taken : event.apply byRecency lruEnsure c = some c') : c'.Valid := by
  cases event with
  | ensureExpertsHybrid onDevice layerId expertIds maxFetch scaled =>
    cases taken
    obtain ⟨limit, same⟩ := valid.ensureExpertsHybrid_eq byRecency routed.1 routed.2
      onDevice maxFetch scaled
    rw [same]
    exact valid.served routed.1 routed.2
  | ensureExperts layerId expertIds =>
    cases taken
    exact correct c layerId expertIds valid routed.1 routed.2
  | materializeLayer layerId =>
    cases taken
    exact valid.materializeLayer routed
  | invalidatePrefillBuffer bufferId =>
    cases taken
    exact valid.invalidatePrefillBuffer bufferId
  | reset =>
    cases taken
    exact valid.reset
  | rebuild cacheSize =>
    cases taken
    cases rebuilt : c.rebuild cacheSize with
    | none => exact valid
    | some c' => exact valid_rebuild rebuilt

variable {numLayers numExperts cacheSize : Nat}

theorem valid_of_run {slotLimit : Option Nat}
    {start : OffloadMoeCache} (correct : LruCorrect lruEnsure)
    (created : create numLayers numExperts cacheSize slotLimit = some start)
    (run : Reaches (Event.apply byRecency lruEnsure) Event.Routed start c) : c.Valid := by
  apply run.invariant Valid (valid_create created)
  intro c event c' valid routed taken
  exact valid.apply correct event routed taken

/-- Over every run the two maps are inverse to each other, and a step rewrites each id to the slot
that holds its expert, or to `-1` if the processor computes it, fetches no expert that the processor
computes, and gives away no slot that it uses. -/
theorem slots_coherent {slotLimit : Option Nat}
    {start : OffloadMoeCache} (correct : LruCorrect lruEnsure)
    (created : create numLayers numExperts cacheSize slotLimit = some start)
    (run : Reaches (Event.apply byRecency lruEnsure) Event.Routed start c) :
    c.Coherent ∧ ∀ (onDevice : Bool) (layerId : Nat) (expertIds : List Nat)
      (maxFetch scaled : Int), layerId < c.numLayers →
      (∀ expert ∈ expertIds, expert < c.numExperts) →
      Split c (c.ensureExpertsHybrid byRecency onDevice layerId expertIds maxFetch scaled).1 layerId
        expertIds
        (c.ensureExpertsHybrid byRecency onDevice layerId expertIds maxFetch scaled).2 := by
  have valid := valid_of_run correct created run
  refine ⟨valid.coherent, ?_⟩
  intro onDevice layerId expertIds maxFetch scaled layer inside
  obtain ⟨limit, same⟩ := valid.ensureExpertsHybrid_eq byRecency layer inside
    onDevice maxFetch scaled
  rw [same]
  exact valid.split_served layer inside

/-- A cache of two layers of two experts, with room for three. -/
def smallCache : OffloadMoeCache where
  numLayers := 2
  numExperts := 2
  cacheSize := 3
  slotLimit := none
  slotForId := fun _ => -1
  idOfSlot := fun _ => -1
  usage := fun _ => 0
  step := 0
  activeMask := fun _ => 0
  evictSlots := fun _ => 0
  srcIndices := fun _ => 0
  numIndices := 0
  numMissingFull := 0
  expertRecency := fun _ => -1

/-- A layer is put in place and a step of the other one follows. -/
theorem slots_coherent_smallCache : Split (smallCache.materializeLayer 0)
    ((smallCache.materializeLayer 0).ensureExpertsHybrid true true 1 [1, 0, 1] 1 0).1 1 [1, 0, 1]
    ((smallCache.materializeLayer 0).ensureExpertsHybrid true true 1 [1, 0, 1] 1 0).2 := by
  have created : create 2 2 3 none = some smallCache := by
    unfold create
    exact if_pos ⟨by decide, nofun⟩
  have routed : (Event.materializeLayer 0).Routed smallCache := Nat.two_pos
  have correct : LruCorrect fun layerId expertIds c =>
      c.served true layerId expertIds c.numExperts :=
    fun _ _ _ valid layer inside => valid.served layer inside
  exact (slots_coherent correct created (.step .refl routed rfl)).2 true 1 [1, 0, 1] 1 0 (by decide)
    (by decide)

end FreeSwarm.Moe.OffloadMoeCache
