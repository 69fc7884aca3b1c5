import FreeSwarm.Moe.SlotMap
import Mathlib.Combinatorics.Pigeonhole

/-!
# The two maps of the offload cache are inverse to each other

Within a step the slots of the experts that are routed to carry the number of the step as their last
use, and no other slot does. There are at least as many slots as experts of a layer, so a missing
expert always finds a slot that was used before the step, and no slot that the step uses is given
away.
-/

namespace FreeSwarm.Moe.OffloadMoeCache

open FreeSwarm.Foundation

variable (c : OffloadMoeCache)

/-- The two maps are inverse to each other: an expert is in one slot at most, and a slot has one
expert at most. -/
structure Coherent : Prop where
  slot : ∀ id < c.totalIds, c.slotForId id = -1 ∨
    ∃ slot < c.cacheSize, c.slotForId id = slot ∧ c.idOfSlot slot = id
  id : ∀ slot < c.cacheSize, c.idOfSlot slot = -1 ∨
    ∃ id < c.totalIds, c.idOfSlot slot = id ∧ c.slotForId id = slot

/-- What holds between the steps. -/
structure Valid : Prop where
  coherent : c.Coherent
  room : c.numExperts ≤ c.cacheSize
  counted : 0 ≤ c.step
  used : ∀ slot < c.cacheSize, c.usage slot ≤ c.step

/-- What holds within a step: the slots of the experts that are routed to are those it has used. -/
structure Serving (layerId : Nat) (seen : List Nat) : Prop where
  coherent : c.Coherent
  room : c.numExperts ≤ c.cacheSize
  used : ∀ slot < c.cacheSize, c.usage slot ≤ c.step
  layer : layerId < c.numLayers
  experts : ∀ expert ∈ seen, expert < c.numExperts
  pinned : ∀ slot < c.cacheSize, c.usage slot = c.step ↔
    ∃ expert ∈ seen, c.idOfSlot slot = (layerId * c.numExperts + expert : Nat)

/-! ## The experts of a step -/

theorem seenExperts_concat (expertIds : List Nat) (last : Nat) :
    seenExperts (expertIds ++ [last]) = if last ∈ seenExperts expertIds then seenExperts expertIds
      else seenExperts expertIds ++ [last] := by
  rw [seenExperts, List.foldl_append]
  rfl

theorem mem_seenExperts {expertIds : List Nat} {expert : Nat} :
    expert ∈ seenExperts expertIds ↔ expert ∈ expertIds := by
  induction expertIds using List.reverseRecOn with
  | nil => simp [seenExperts]
  | append_singleton expertIds last ih =>
    rw [seenExperts_concat]
    split
    · next known =>
      rw [ih, List.mem_append, List.mem_singleton]
      constructor
      · exact Or.inl
      · rintro (mem | rfl)
        · exact mem
        · exact ih.mp known
    · rw [List.mem_append, List.mem_append, ih]

theorem nodup_seenExperts (expertIds : List Nat) : (seenExperts expertIds).Nodup := by
  induction expertIds using List.reverseRecOn with
  | nil => exact List.nodup_nil
  | append_singleton expertIds last ih =>
    rw [seenExperts_concat]
    split
    · exact ih
    · next new =>
      rw [List.nodup_append]
      refine ⟨ih, by simp, ?_⟩
      rintro e mem e' mem' rfl
      exact new (List.mem_singleton.mp mem' ▸ mem)

variable {c : OffloadMoeCache} {layerId expert idx : Nat} {seen : List Nat} {byRecency : Bool}

theorem mem_missingExperts : expert ∈ c.missingExperts byRecency layerId seen ↔
    expert ∈ seen ∧ c.slotOf layerId expert = -1 := by
  rw [missingExperts, List.mem_mergeSort, List.mem_filter, decide_eq_true_iff]

theorem nodup_missingExperts (nodup : seen.Nodup) :
    (c.missingExperts byRecency layerId seen).Nodup :=
  (List.mergeSort_perm _ _).nodup_iff.mpr (nodup.filter _)

theorem id_lt (layer : layerId < c.numLayers) (inside : expert < c.numExperts) :
    layerId * c.numExperts + expert < c.totalIds := by
  have next : (layerId + 1) * c.numExperts ≤ c.numLayers * c.numExperts :=
    Nat.mul_le_mul_right _ layer
  rw [totalIds]
  rw [Nat.add_mul, Nat.one_mul] at next
  omega

/-! ## Victims -/

theorem leastUsed_spec (some_ : 0 < c.cacheSize) : c.leastUsed < c.cacheSize ∧
    (∀ slot < c.cacheSize, c.usage c.leastUsed ≤ c.usage slot) ∧
      ∀ slot < c.leastUsed, c.usage c.leastUsed < c.usage slot := by
  have ranks : Ranks c.usedBefore := by
    constructor
    · intro a b
      simp only [usedBefore, decide_eq_true_iff]
      omega
    · intro a b d
      simp only [usedBefore, decide_eq_true_iff]
      omega
  obtain ⟨inside, best, first⟩ : c.leastUsed < c.cacheSize ∧
      (∀ slot < c.cacheSize, ¬ c.usedBefore slot c.leastUsed) ∧
        ∀ slot < c.leastUsed, c.usedBefore c.leastUsed slot := firstBest_spec ranks some_
  simp only [usedBefore, decide_eq_true_iff] at best first
  refine ⟨inside, fun slot lt => ?_, fun slot earlier => ?_⟩
  · have none_ := best slot lt
    omega
  · have before := first slot earlier
    omega

namespace Serving

theorem exists_unused (serving : c.Serving layerId seen) (mem : expert ∈ seen)
    (missing : c.slotOf layerId expert = -1) : ∃ slot < c.cacheSize, c.usage slot < c.step := by
  by_contra none_
  have full : ∀ slot < c.cacheSize, ∃ e ∈ seen,
      c.idOfSlot slot = (layerId * c.numExperts + e : Nat) := by
    intro slot lt
    apply (serving.pinned slot lt).mp
    have le := serving.used slot lt
    by_contra ne
    exact none_ ⟨slot, lt, by omega⟩
  choose! owner owned holds using full
  -- the owner of a slot has that slot, so owners differ and the missing expert owns none
  have place : ∀ slot < c.cacheSize, c.slotOf layerId (owner slot) = slot := by
    intro slot lt
    rcases serving.coherent.id slot lt with free | ⟨id, -, same, back⟩
    · rw [holds slot lt] at free
      omega
    · have here : id = layerId * c.numExperts + owner slot := by
        have both := same.symm.trans (holds slot lt)
        omega
      rw [slotOf, ← here, back]
  have maps : ∀ slot ∈ Finset.range c.cacheSize,
      owner slot ∈ (Finset.range c.numExperts).erase expert := by
    intro slot inside
    have lt := Finset.mem_range.mp inside
    refine Finset.mem_erase.mpr ⟨?_, Finset.mem_range.mpr (serving.experts _ (owned slot lt))⟩
    intro same
    have here := place slot lt
    rw [same, missing] at here
    omega
  have fewer : ((Finset.range c.numExperts).erase expert).card < (Finset.range c.cacheSize).card := by
    rw [Finset.card_erase_of_mem (Finset.mem_range.mpr (serving.experts expert mem)),
      Finset.card_range, Finset.card_range]
    have inside := serving.experts expert mem
    have room := serving.room
    omega
  obtain ⟨slot, inside, slot', inside', ne, same⟩ :=
    Finset.exists_ne_map_eq_of_card_lt_of_maps_to fewer maps
  apply ne
  have here := place slot (Finset.mem_range.mp inside)
  have here' := place slot' (Finset.mem_range.mp inside')
  rw [same, here'] at here
  exact_mod_cast here.symm

theorem victim (serving : c.Serving layerId seen) (mem : expert ∈ seen)
    (missing : c.slotOf layerId expert = -1) :
    c.leastUsed < c.cacheSize ∧ c.usage c.leastUsed < c.step := by
  obtain ⟨slot, lt, unused⟩ := serving.exists_unused mem missing
  have some_ : 0 < c.cacheSize := by omega
  obtain ⟨inside, least, -⟩ := leastUsed_spec some_
  exact ⟨inside, (least slot lt).trans_lt unused⟩

end Serving

/-! ## Fetches -/

theorem Coherent.give (coherent : c.Coherent) {slot : Nat} (inside : slot < c.cacheSize)
    (known : layerId * c.numExperts + expert < c.totalIds)
    (missing : c.slotOf layerId expert = -1) :
    (c.give layerId idx expert slot (c.idOfSlot slot)).Coherent := by
  have taken : ∀ id : Nat, c.slotForId id = slot → id < c.totalIds → c.idOfSlot slot = id := by
    intro id here lt
    rcases coherent.slot id lt with none_ | ⟨s, -, same, back⟩
    · omega
    · obtain rfl : s = slot := by omega
      exact back
  constructor
  · intro id lt
    by_cases new : id = layerId * c.numExperts + expert
    · right
      refine ⟨slot, inside, ?_, ?_⟩
      · simp [OffloadMoeCache.give, new]
      · simp [OffloadMoeCache.give, new]
    · have unchanged : (c.give layerId idx expert slot (c.idOfSlot slot)).slotForId id =
          if c.idOfSlot slot = id then -1 else c.slotForId id := by
        simp only [OffloadMoeCache.give, Function.update_of_ne new]
        split
        · next old =>
          rw [Function.update_apply]
          refine if_congr ⟨fun same => by omega, fun same => by omega⟩ rfl rfl
        · next free => rw [if_neg (by omega)]
      rw [unchanged]
      split
      · exact .inl rfl
      · next other =>
        rcases coherent.slot id lt with none_ | ⟨s, inside', same, back⟩
        · exact .inl none_
        · right
          have ne : s ≠ slot := by
            rintro rfl
            exact other back
          refine ⟨s, inside', same, ?_⟩
          simp only [OffloadMoeCache.give, Function.update_of_ne ne]
          exact back
  · intro s inside'
    by_cases here : s = slot
    · right
      refine ⟨layerId * c.numExperts + expert, known, ?_, ?_⟩
      · simp [OffloadMoeCache.give, here]
      · simp [OffloadMoeCache.give, here]
    · have unchanged : (c.give layerId idx expert slot (c.idOfSlot slot)).idOfSlot s =
          c.idOfSlot s := by
        simp only [OffloadMoeCache.give, Function.update_of_ne here]
      rw [unchanged]
      rcases coherent.id s inside' with free | ⟨id, lt, same, back⟩
      · exact .inl free
      · right
        refine ⟨id, lt, same, ?_⟩
        have new : id ≠ layerId * c.numExperts + expert := by
          rintro rfl
          rw [slotOf, back] at missing
          omega
        have other : c.idOfSlot slot ≠ id := by
          intro old
          rcases coherent.id slot inside with free | ⟨id', lt', same', back'⟩
          · omega
          · obtain rfl : id' = id := by omega
            rw [back] at back'
            exact here (by omega)
        simp only [OffloadMoeCache.give, Function.update_of_ne new]
        split
        · rw [Function.update_of_ne (by omega), back]
        · exact back

theorem slotOf_give {slot other : Nat} {oldId : Int} (ne : other ≠ expert) :
    (c.give layerId idx expert slot oldId).slotOf layerId other =
      if oldId = (layerId * c.numExperts + other : Nat) then -1 else c.slotOf layerId other := by
  have new : layerId * c.numExperts + other ≠ layerId * c.numExperts + expert := by omega
  simp only [slotOf, OffloadMoeCache.give, Function.update_of_ne new]
  split
  · rw [Function.update_apply]
    exact if_congr ⟨fun same => by omega, fun same => by omega⟩ rfl rfl
  · next free => rw [if_neg (by omega)]

@[simp] theorem slotOf_give_self {slot : Nat} {oldId : Int} :
    (c.give layerId idx expert slot oldId).slotOf layerId expert = slot := by
  simp [slotOf, OffloadMoeCache.give]

namespace Serving

theorem pinned_of_slotOf (serving : c.Serving layerId seen) (mem : expert ∈ seen)
    (there : c.slotOf layerId expert ≠ -1) :
    ∃ slot < c.cacheSize, c.slotOf layerId expert = slot ∧
      c.idOfSlot slot = (layerId * c.numExperts + expert : Nat) ∧ c.usage slot = c.step := by
  rcases serving.coherent.slot _ (id_lt serving.layer (serving.experts expert mem)) with
    none_ | ⟨slot, inside, same, back⟩
  · exact absurd none_ there
  · exact ⟨slot, inside, same, back, (serving.pinned slot inside).mpr ⟨expert, mem, back⟩⟩

theorem fetchExpert (serving : c.Serving layerId seen) (mem : expert ∈ seen)
    (missing : c.slotOf layerId expert = -1) :
    (c.fetchExpert layerId idx expert).Serving layerId seen := by
  obtain ⟨inside, unused⟩ := serving.victim mem missing
  have inLayer := serving.experts expert mem
  refine ⟨serving.coherent.give inside (id_lt serving.layer inLayer) missing, serving.room, ?_,
    serving.layer, serving.experts, ?_⟩
  · intro slot lt
    show Function.update c.usage c.leastUsed c.step slot ≤ c.step
    rw [Function.update_apply]
    split
    · exact le_rfl
    · exact serving.used slot lt
  · intro slot lt
    show Function.update c.usage c.leastUsed c.step slot = c.step ↔ ∃ e ∈ seen,
      Function.update c.idOfSlot c.leastUsed (layerId * c.numExperts + expert : Nat) slot =
        (layerId * c.numExperts + e : Nat)
    by_cases here : slot = c.leastUsed
    · rw [here, Function.update_self, Function.update_self]
      exact ⟨fun _ => ⟨expert, mem, rfl⟩, fun _ => rfl⟩
    · rw [Function.update_of_ne here, Function.update_of_ne here]
      exact serving.pinned slot lt

theorem slotOf_fetchExpert (serving : c.Serving layerId seen) (mem : expert ∈ seen)
    (missing : c.slotOf layerId expert = -1) {other : Nat} (mem' : other ∈ seen)
    (ne : other ≠ expert) :
    (c.fetchExpert layerId idx expert).slotOf layerId other = c.slotOf layerId other := by
  obtain ⟨inside, unused⟩ := serving.victim mem missing
  rw [OffloadMoeCache.fetchExpert, slotOf_give ne, if_neg]
  intro owner
  have used := (serving.pinned c.leastUsed inside).mpr ⟨other, mem', owner⟩
  omega

end Serving

/-- What the fetches of a step leave and do. -/
structure Fetched (c c' : OffloadMoeCache) (layerId idx : Nat) (seen experts : List Nat) : Prop where
  serving : c'.Serving layerId seen
  others : ∀ expert ∈ seen, expert ∉ experts → c'.slotOf layerId expert = c.slotOf layerId expert
  listed : ∀ i expert, experts[i]? = some expert → c'.slotOf layerId expert ≠ -1 ∧
    c'.evictSlots (idx + i) = c'.slotOf layerId expert ∧ c'.srcIndices (idx + i) = expert
  before : ∀ i < idx, c'.evictSlots i = c.evictSlots i ∧ c'.srcIndices i = c.srcIndices i

theorem Serving.fetchAll {experts : List Nat} (serving : c.Serving layerId seen)
    (nodup : experts.Nodup)
    (missing : ∀ expert ∈ experts, expert ∈ seen ∧ c.slotOf layerId expert = -1) :
    Fetched c (fetchAll layerId idx experts c) layerId idx seen experts := by
  induction experts generalizing c idx with
  | nil =>
    refine ⟨serving, fun _ _ _ => rfl, ?_, fun _ _ => ⟨rfl, rfl⟩⟩
    intro i expert absent
    simp at absent
  | cons first rest ih =>
    obtain ⟨new, nodup⟩ := List.nodup_cons.mp nodup
    obtain ⟨mem, away⟩ := missing first List.mem_cons_self
    have next : (c.fetchExpert layerId idx first).Serving layerId seen :=
      serving.fetchExpert mem away
    have still : ∀ expert ∈ rest, expert ∈ seen ∧
        (c.fetchExpert layerId idx first).slotOf layerId expert = -1 := by
      intro expert later
      obtain ⟨mem', away'⟩ := missing expert (List.mem_cons_of_mem _ later)
      have ne : expert ≠ first := fun same => new (same ▸ later)
      exact ⟨mem', (serving.slotOf_fetchExpert mem away mem' ne).trans away'⟩
    have fetched : Fetched (c.fetchExpert layerId idx first)
        (OffloadMoeCache.fetchAll layerId (idx + 1) rest (c.fetchExpert layerId idx first)) layerId
        (idx + 1) seen rest := ih next nodup still
    have kept := fetched.others first mem new
    have given : (c.fetchExpert layerId idx first).slotOf layerId first = c.leastUsed :=
      slotOf_give_self
    refine ⟨fetched.serving, ?_, ?_, ?_⟩
    · intro expert mem' other
      rw [List.mem_cons, not_or] at other
      exact (fetched.others expert mem' other.2).trans
        (serving.slotOf_fetchExpert mem away mem' other.1)
    · intro i expert here
      cases i with
      | zero =>
        obtain rfl : first = expert := by simpa using here
        obtain ⟨evict, src⟩ := fetched.before idx (Nat.lt_succ_self idx)
        simp only [OffloadMoeCache.fetchAll, Nat.add_zero, evict, src, kept, given]
        refine ⟨by omega, ?_, ?_⟩
        · simp [OffloadMoeCache.fetchExpert, OffloadMoeCache.give]
        · simp [OffloadMoeCache.fetchExpert, OffloadMoeCache.give]
      | succ i =>
        have entry := fetched.listed i expert (by simpa using here)
        rwa [Nat.add_assoc, Nat.add_comm 1 i] at entry
    · intro i lt
      obtain ⟨evict, src⟩ := fetched.before i (by omega)
      have ne : i ≠ idx := by omega
      rw [OffloadMoeCache.fetchAll, evict, src]
      simp [OffloadMoeCache.fetchExpert, OffloadMoeCache.give, ne]

end FreeSwarm.Moe.OffloadMoeCache
