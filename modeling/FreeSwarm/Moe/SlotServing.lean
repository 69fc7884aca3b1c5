import FreeSwarm.Moe.SlotCoherence

/-!
# A step of the offload cache

The reference and the vector program differ in the number of missing experts that they fetch at most.
Here a step is given with that number, and what it leaves is stated once for both.
-/

namespace FreeSwarm.Moe.OffloadMoeCache

open FreeSwarm.Foundation

/-! ## A step with a given bound -/

variable (byRecency : Bool) (layerId : Nat) (expertIds : List Nat) (limit : Int) (c : OffloadMoeCache)

def begun : OffloadMoeCache :=
  (c.begin (seenExperts expertIds)).pinHits layerId (seenExperts expertIds)

def misses :
    List Nat :=
  (c.begun layerId expertIds).missingExperts byRecency layerId (seenExperts expertIds)

/-- The number of missing experts that a step fetches, given a bound on it. -/
def numFetch
    : Int :=
  min ((c.misses byRecency layerId expertIds).length : Int) limit

def fetches
    : List Nat :=
  (c.misses byRecency layerId expertIds).take (c.numFetch byRecency layerId expertIds limit).toNat

/-- The cache before the fetches. -/
def opened
    : OffloadMoeCache :=
  { c.begun layerId expertIds with
    numMissingFull := (c.misses byRecency layerId expertIds).length
    numIndices := c.numFetch byRecency layerId expertIds limit }

/-- A step with a bound on the number of its fetches. -/
def served
    : OffloadMoeCache × List Int :=
  let fetched := fetchAll layerId 0 (c.fetches byRecency layerId expertIds limit)
    (c.opened byRecency layerId expertIds limit)
  let after := fetched.noteRecency byRecency layerId (seenExperts expertIds)
  (after, after.rewrite layerId expertIds)

theorem ensureHybridCpu_eq (byRecency : Bool) (layerId : Nat) (expertIds : List Nat)
    (maxFetch frac : Int) (c : OffloadMoeCache) :
    c.ensureHybridCpu byRecency layerId expertIds maxFetch frac =
      c.served byRecency layerId expertIds
        (fetchLimit (c.misses byRecency layerId expertIds).length maxFetch frac) := rfl

variable {c : OffloadMoeCache} {byRecency : Bool} {layerId expert : Nat} {expertIds : List Nat}
  {limit : Int}
variable (valid : c.Valid) (layer : layerId < c.numLayers)
  (inside : ∀ expert ∈ expertIds, expert < c.numExperts)

/-! ## The step is served -/

theorem Coherent.slotOf_iff (coherent : c.Coherent) {slot : Nat} (inside : slot < c.cacheSize)
    (known : layerId * c.numExperts + expert < c.totalIds) :
    c.slotOf layerId expert = slot ↔ c.idOfSlot slot = (layerId * c.numExperts + expert : Nat) := by
  constructor
  · intro here
    rcases coherent.slot _ known with none_ | ⟨s, -, same, back⟩
    · rw [slotOf, none_] at here
      omega
    · rw [slotOf, same] at here
      obtain rfl : s = slot := by omega
      exact back
  · intro owner
    rcases coherent.id slot inside with free | ⟨id, -, same, back⟩
    · omega
    · obtain rfl : id = layerId * c.numExperts + expert := by omega
      exact back

theorem Coherent.slotOf_nonneg (coherent : c.Coherent)
    (known : layerId * c.numExperts + expert < c.totalIds) :
    0 ≤ c.slotOf layerId expert ↔ c.slotOf layerId expert ≠ -1 := by
  rcases coherent.slot _ known with none_ | ⟨s, -, same, -⟩
  · rw [slotOf, none_]
    omega
  · rw [slotOf, same]
    omega

theorem mem_misses : expert ∈ c.misses byRecency layerId expertIds ↔
    expert ∈ expertIds ∧ c.slotOf layerId expert = -1 := by
  rw [misses, mem_missingExperts, mem_seenExperts]
  rfl

theorem nodup_misses : (c.misses byRecency layerId expertIds).Nodup :=
  nodup_missingExperts (nodup_seenExperts expertIds)

theorem mem_fetches (mem : expert ∈ c.fetches byRecency layerId expertIds limit) :
    expert ∈ expertIds ∧ c.slotOf layerId expert = -1 :=
  mem_misses.mp (List.mem_of_mem_take mem)

theorem length_fetches : (c.fetches byRecency layerId expertIds limit).length =
    (c.numFetch byRecency layerId expertIds limit).toNat := by
  rw [fetches, List.length_take, numFetch]
  omega

variable (byRecency limit) in
include valid layer inside in
theorem usage_opened {slot : Nat} (lt : slot < c.cacheSize) :
    (c.opened byRecency layerId expertIds limit).usage slot =
      if ∃ expert ∈ expertIds, c.idOfSlot slot = (layerId * c.numExperts + expert : Nat)
      then c.step + 1 else c.usage slot := by
  show storeEach (seenExperts expertIds) (fun expert => c.slotOf layerId expert != -1)
    (fun expert => (c.slotOf layerId expert).toNat) (fun _ => c.step + 1) c.usage slot = _
  rw [storeEach_const]
  refine if_congr ?_ rfl rfl
  have hit : ∀ expert ∈ expertIds, (c.slotOf layerId expert != -1) = true ∧
      (c.slotOf layerId expert).toNat = slot ↔
        c.idOfSlot slot = (layerId * c.numExperts + expert : Nat) := by
    intro expert mem
    have known := id_lt layer (inside expert mem)
    rw [← valid.coherent.slotOf_iff lt known, bne_iff_ne, ← valid.coherent.slotOf_nonneg known]
    omega
  constructor
  · rintro ⟨expert, mem, here⟩
    have routed := mem_seenExperts.mp mem
    exact ⟨expert, routed, (hit expert routed).mp here⟩
  · rintro ⟨expert, mem, owner⟩
    exact ⟨expert, mem_seenExperts.mpr mem, (hit expert mem).mpr owner⟩

variable (byRecency limit) in
include valid layer inside in
/-- The fetches of a step start where its slots are those it has used. -/
theorem Valid.opened :
    (c.opened byRecency layerId expertIds limit).Serving layerId (seenExperts expertIds) := by
  refine ⟨⟨valid.coherent.slot, valid.coherent.id⟩, valid.room, ?_, layer, ?_, ?_⟩
  · intro slot lt
    rw [usage_opened byRecency limit valid layer inside lt]
    show _ ≤ c.step + 1
    split
    · exact le_rfl
    · have before := valid.used slot lt
      omega
  · intro expert mem
    exact inside expert (mem_seenExperts.mp mem)
  · intro slot lt
    have before := valid.used slot lt
    simp only [mem_seenExperts]
    rw [usage_opened byRecency limit valid layer inside lt]
    show _ = c.step + 1 ↔ ∃ expert ∈ expertIds,
      c.idOfSlot slot = (layerId * c.numExperts + expert : Nat)
    split
    · next owner => exact ⟨fun _ => owner, fun _ => rfl⟩
    · next none_ => exact ⟨fun same => by omega, fun owner => absurd owner none_⟩

variable (byRecency limit) in
include valid layer inside in
theorem Valid.fetched :
    Fetched (c.opened byRecency layerId expertIds limit)
      (fetchAll layerId 0 (c.fetches byRecency layerId expertIds limit)
        (c.opened byRecency layerId expertIds limit))
      layerId 0 (seenExperts expertIds) (c.fetches byRecency layerId expertIds limit) := by
  apply (valid.opened byRecency limit layer inside).fetchAll
  · exact nodup_misses.sublist (List.take_sublist _ _)
  · intro expert mem
    obtain ⟨routed, away⟩ := mem_fetches mem
    exact ⟨mem_seenExperts.mpr routed, away⟩

/-! ## What a step leaves -/

def Fetches (c : OffloadMoeCache) (entry expert slot : Nat) : Prop :=
  (entry : Int) < c.numIndices ∧ c.srcIndices entry = expert ∧ c.evictSlots entry = slot

/-- What a step does with the experts it routes to. -/
structure Split (c c' : OffloadMoeCache) (layerId : Nat) (expertIds : List Nat)
    (rewritten : List Int) : Prop where
  /-- An id is rewritten to the slot that holds its expert, or to `-1` if no slot does. -/
  rewritten : List.Forall₂ (fun expert (place : Int) =>
    (∃ slot < c'.cacheSize, place = slot ∧
      c'.idOfSlot slot = (layerId * c'.numExperts + expert : Nat)) ∨
    place = -1 ∧ ∀ slot < c'.cacheSize,
      c'.idOfSlot slot ≠ (layerId * c'.numExperts + expert : Nat)) expertIds rewritten
  split : ∀ expert ∈ expertIds, c'.slotOf layerId expert = -1 ↔
    c.slotOf layerId expert = -1 ∧ ∀ entry slot, ¬ c'.Fetches entry expert slot
  fetched : ∀ entry expert slot, c'.Fetches entry expert slot →
    expert ∈ expertIds ∧ c.slotOf layerId expert = -1 ∧ c'.slotOf layerId expert = slot
  once : ∀ entry entry' expert expert' slot, c'.Fetches entry expert slot →
    c'.Fetches entry' expert' slot → entry = entry'
  kept : ∀ expert ∈ expertIds, c.slotOf layerId expert ≠ -1 →
    c'.slotOf layerId expert = c.slotOf layerId expert ∧
    ∀ entry other slot, c'.Fetches entry other slot → (slot : Int) ≠ c.slotOf layerId expert

theorem fetchAll_frame (idx : Nat) (experts : List Nat) :
    (fetchAll layerId idx experts c).step = c.step ∧
      (fetchAll layerId idx experts c).numExperts = c.numExperts ∧
      (fetchAll layerId idx experts c).numLayers = c.numLayers ∧
      (fetchAll layerId idx experts c).cacheSize = c.cacheSize ∧
      (fetchAll layerId idx experts c).numIndices = c.numIndices := by
  induction experts generalizing c idx with
  | nil => exact ⟨rfl, rfl, rfl, rfl, rfl⟩
  | cons expert rest ih => exact ih (idx + 1)

@[simp] theorem slotOf_noteRecency (experts : List Nat) (other : Nat) :
    (c.noteRecency byRecency layerId experts).slotOf layerId other = c.slotOf layerId other := by
  cases byRecency <;> rfl

theorem Valid.noteRecency (valid : c.Valid) (experts : List Nat) :
    (c.noteRecency byRecency layerId experts).Valid := by
  cases byRecency
  · exact valid
  · exact ⟨⟨valid.coherent.slot, valid.coherent.id⟩, valid.room, valid.counted, valid.used⟩

include valid layer inside in
theorem Valid.served :
    (c.served byRecency layerId expertIds limit).1.Valid := by
  have fetched := valid.fetched byRecency limit layer inside
  apply Valid.noteRecency
  refine ⟨fetched.serving.coherent, fetched.serving.room, ?_, fetched.serving.used⟩
  rw [(fetchAll_frame 0 _).1]
  show 0 ≤ c.step + 1
  have counted := valid.counted
  omega

variable (byRecency limit) in
include valid layer inside in
theorem Valid.fetches_iff (entry expert slot : Nat) :
    (fetchAll layerId 0 (c.fetches byRecency layerId expertIds limit)
      (c.opened byRecency layerId expertIds limit)).Fetches entry expert slot ↔
    (c.fetches byRecency layerId expertIds limit)[entry]? = some expert ∧
      (fetchAll layerId 0 (c.fetches byRecency layerId expertIds limit)
        (c.opened byRecency layerId expertIds limit)).slotOf layerId expert = slot := by
  have fetched := valid.fetched byRecency limit layer inside
  have length : (c.fetches byRecency layerId expertIds limit).length = _ := length_fetches
  rw [OffloadMoeCache.Fetches, (fetchAll_frame 0 _).2.2.2.2]
  constructor
  · rintro ⟨lt, source, evicted⟩
    have lt' : entry < (c.fetches byRecency layerId expertIds limit).length := by
      rw [length]
      change (entry : Int) < c.numFetch byRecency layerId expertIds limit at lt
      omega
    obtain ⟨-, evict, src⟩ := fetched.listed entry _ (List.getElem?_eq_getElem lt')
    rw [Nat.zero_add] at evict src
    rw [source] at src
    have same : expert = (c.fetches byRecency layerId expertIds limit)[entry] := by omega
    rw [evicted, ← same] at evict
    rw [List.getElem?_eq_getElem lt', ← same]
    exact ⟨rfl, evict.symm⟩
  · rintro ⟨here, place⟩
    obtain ⟨-, evict, src⟩ := fetched.listed entry _ here
    rw [Nat.zero_add] at evict src
    refine ⟨?_, src, evict.trans place⟩
    obtain ⟨lt, -⟩ := List.getElem?_eq_some_iff.mp here
    rw [length] at lt
    show (entry : Int) < c.numFetch byRecency layerId expertIds limit
    omega

include valid layer inside in
theorem Valid.slotOf_fetched (mem : expert ∈ c.fetches byRecency layerId expertIds limit) :
    ∃ entry slot, (fetchAll layerId 0 (c.fetches byRecency layerId expertIds limit)
      (c.opened byRecency layerId expertIds limit)).Fetches entry expert slot := by
  have fetched := valid.fetched byRecency limit layer inside
  obtain ⟨entry, here⟩ := List.mem_iff_getElem?.mp mem
  have routed := mem_seenExperts.mpr (mem_fetches mem).1
  obtain ⟨slot, -, place, -, -⟩ :=
    fetched.serving.pinned_of_slotOf routed (fetched.listed entry expert here).1
  exact ⟨entry, slot, (valid.fetches_iff byRecency limit layer inside entry expert slot).mpr
    ⟨here, place⟩⟩

variable (byRecency limit) in
include valid layer inside in
theorem Valid.split_fetchAll :
    Split c (fetchAll layerId 0 (c.fetches byRecency layerId expertIds limit)
        (c.opened byRecency layerId expertIds limit)) layerId expertIds
      ((fetchAll layerId 0 (c.fetches byRecency layerId expertIds limit)
        (c.opened byRecency layerId expertIds limit)).rewrite layerId expertIds) := by
  have fetched := valid.fetched byRecency limit layer inside
  have listed := fun entry expert slot =>
    valid.fetches_iff byRecency limit layer inside entry expert slot
  have distinct : (c.fetches byRecency layerId expertIds limit).Nodup :=
    nodup_misses.sublist (List.take_sublist _ _)
  have serving := fetched.serving
  constructor
  · rw [rewrite, List.forall₂_map_right_iff, List.forall₂_same]
    intro expert mem
    have known := id_lt serving.layer (serving.experts expert (mem_seenExperts.mpr mem))
    by_cases there : slotOf (fetchAll layerId 0 (c.fetches byRecency layerId expertIds limit)
        (c.opened byRecency layerId expertIds limit)) layerId expert = -1
    · refine .inr ⟨there, fun slot lt owner => ?_⟩
      have place := (serving.coherent.slotOf_iff lt known).mpr owner
      omega
    · obtain ⟨slot, lt, place, owner, -⟩ :=
        serving.pinned_of_slotOf (mem_seenExperts.mpr mem) there
      exact .inl ⟨slot, lt, place, owner⟩
  · intro expert mem
    by_cases taken : expert ∈ c.fetches byRecency layerId expertIds limit
    · obtain ⟨entry, slot, here⟩ := valid.slotOf_fetched layer inside taken
      have place := ((listed entry expert slot).mp here).2
      constructor
      · intro away
        omega
      · rintro ⟨-, none_⟩
        exact absurd here (none_ entry slot)
    · rw [fetched.others expert (mem_seenExperts.mpr mem) taken]
      constructor
      · intro away
        refine ⟨away, fun entry slot here => ?_⟩
        exact taken (List.mem_of_getElem? ((listed entry expert slot).mp here).1)
      · exact And.left
  · intro entry expert slot here
    obtain ⟨entry', place⟩ := (listed entry expert slot).mp here
    obtain ⟨routed, away⟩ := mem_fetches (List.mem_of_getElem? entry')
    exact ⟨routed, away, place⟩
  · intro entry entry' expert expert' slot here here'
    obtain ⟨at_, place⟩ := (listed entry expert slot).mp here
    obtain ⟨at', place'⟩ := (listed entry' expert' slot).mp here'
    -- both experts have the slot, so they are one, which is listed once
    have routed := mem_seenExperts.mpr (mem_fetches (List.mem_of_getElem? at_)).1
    have routed' := mem_seenExperts.mpr (mem_fetches (List.mem_of_getElem? at')).1
    obtain ⟨s, lt, same, owner, -⟩ := serving.pinned_of_slotOf routed (by omega)
    obtain ⟨s', lt', same', owner', -⟩ := serving.pinned_of_slotOf routed' (by omega)
    obtain rfl : s = s' := by omega
    obtain rfl : expert = expert' := by omega
    obtain ⟨inside, value⟩ := List.getElem?_eq_some_iff.mp at_
    obtain ⟨inside', value'⟩ := List.getElem?_eq_some_iff.mp at'
    exact (List.Nodup.getElem_inj_iff distinct).mp (value.trans value'.symm)
  · intro expert mem there
    have seen := mem_seenExperts.mpr mem
    have spared : expert ∉ c.fetches byRecency layerId expertIds limit :=
      fun taken => there (mem_fetches taken).2
    have place := fetched.others expert seen spared
    refine ⟨place, fun entry other slot here same => ?_⟩
    obtain ⟨at_, place'⟩ := (listed entry other slot).mp here
    have routed := mem_seenExperts.mpr (mem_fetches (List.mem_of_getElem? at_)).1
    have there' : slotOf (fetchAll layerId 0 (c.fetches byRecency layerId expertIds limit)
        (c.opened byRecency layerId expertIds limit)) layerId expert = slot := place.trans same.symm
    obtain ⟨s, lt, here', owner, -⟩ := serving.pinned_of_slotOf routed (by omega)
    obtain ⟨s', lt', here'', owner', -⟩ := serving.pinned_of_slotOf seen (by omega)
    obtain rfl : s = s' := by omega
    obtain rfl : other = expert := by omega
    exact spared (List.mem_of_getElem? at_)

include valid layer inside in
theorem Valid.split_served :
    Split c (c.served byRecency layerId expertIds limit).1 layerId expertIds
      (c.served byRecency layerId expertIds limit).2 := by
  have fetched := valid.split_fetchAll byRecency limit layer inside
  cases byRecency
  · exact fetched
  · exact ⟨fetched.rewritten, fetched.split, fetched.fetched, fetched.once, fetched.kept⟩

end FreeSwarm.Moe.OffloadMoeCache
