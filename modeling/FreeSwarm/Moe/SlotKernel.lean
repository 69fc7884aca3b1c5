import FreeSwarm.Moe.SlotServing
import Mathlib.Data.List.Sort

/-!
# The vector program takes the same step

The vector program ranks the missing experts and the slots before its loop and strikes out what it
has taken; the reference looks at the cache anew for each fetch. Between the steps of the cache the
two choose the same experts and the same slots, given the same bound on the number of fetches.
-/

namespace FreeSwarm.Moe.OffloadMoeCache

open FreeSwarm.Foundation

variable {c : OffloadMoeCache} {byRecency : Bool} {layerId expert lane : Nat}
  {expertIds : List Nat} {limit : Int}
variable (valid : c.Valid) (layer : layerId < c.numLayers)
  (inside : ∀ expert ∈ expertIds, expert < c.numExperts)

/-! ## The lanes -/

theorem le_block (entries : Nat) : entries ≤ block entries :=
  (Nat.clog_le_iff_le_pow Nat.one_lt_two).mp le_rfl

theorem laneActive_iff : laneActive expertIds lane ↔ lane ∈ expertIds := by
  rw [laneActive, foldl_or]
  simp

theorem ownerActive_iff {slot : Nat} : c.ownerActive layerId expertIds slot ↔
    ∃ expert ∈ expertIds, c.idOfSlot slot = (layerId * c.numExperts + expert : Nat) := by
  rw [ownerActive, foldl_or]
  simp

variable (byRecency) in
include inside in
theorem laneMissing_iff :
    c.laneMissing layerId expertIds lane ↔ lane ∈ c.misses byRecency layerId expertIds := by
  rw [mem_misses, laneMissing, Bool.and_eq_true, Bool.and_eq_true, laneActive_iff, beq_iff_eq,
    decide_eq_true_iff, laneSlot]
  constructor
  · rintro ⟨⟨routed, away⟩, lt⟩
    rw [if_pos lt] at away
    exact ⟨routed, away⟩
  · rintro ⟨routed, away⟩
    have lt := inside lane routed
    rw [if_pos lt]
    exact ⟨⟨routed, away⟩, lt⟩

include inside in
theorem misses_perm :
    (c.misses byRecency layerId expertIds).Perm
      ((List.range (block c.numExperts)).filter (c.laneMissing layerId expertIds)) := by
  rw [List.perm_ext_iff_of_nodup nodup_misses (List.nodup_range.filter _)]
  intro lane
  rw [List.mem_filter, laneMissing_iff byRecency inside, List.mem_range]
  constructor
  · intro missing
    exact ⟨(inside lane (mem_misses.mp missing).1).trans_le (le_block _), missing⟩
  · exact And.right

variable (byRecency) in
include inside in
theorem laneCount_missing :
    laneCount (block c.numExperts) (c.laneMissing layerId expertIds) =
      (c.misses byRecency layerId expertIds).length := by
  rw [(misses_perm inside).length_eq]
  exact List.countP_eq_length_filter

/-! ## The order of the fetches -/

theorem sorted_misses : (c.misses byRecency layerId expertIds).Pairwise fun e e' =>
    fetchedBefore byRecency (c.begun layerId expertIds) layerId e e' := by
  apply List.pairwise_mergeSort
  · intro e e' e'' first second
    cases byRecency
    · simp only [fetchedBefore, Bool.false_eq_true, if_false, decide_eq_true_iff] at first second ⊢
      omega
    · simp only [fetchedBefore, if_true, decide_eq_true_iff] at first second ⊢
      omega
  · intro e e'
    rw [Bool.or_eq_true]
    cases byRecency
    · simp only [fetchedBefore, Bool.false_eq_true, if_false, decide_eq_true_iff]
      omega
    · simp only [fetchedBefore, if_true, decide_eq_true_iff]
      omega

include inside in
theorem misses_eq_lanes :
    c.misses false layerId expertIds =
      (List.range (block c.numExperts)).filter (c.laneMissing layerId expertIds) := by
  apply (misses_perm inside).eq_of_pairwise
  · intro e e' _ _ le ge
    exact le_antisymm le ge
  · apply sorted_misses.imp
    intro e e' before
    simpa [fetchedBefore] using before
  · apply List.Pairwise.filter
    exact List.pairwise_le_range

include inside in
theorem laneOfRank_eq {rank : Nat}
    (here : (c.misses false layerId expertIds)[rank]? = some expert) :
    c.laneOfRank layerId expertIds rank = expert := by
  have found := sum_rank (block c.numExperts) (c.laneMissing layerId expertIds) rank
  rw [← misses_eq_lanes inside, here] at found
  exact found

theorem score_lt {e e' : Nat} (inside : e < c.numExperts)
    (ne : e' ≠ e) (before : fetchedBefore true c layerId e e') :
    c.recencyOf layerId e' * c.numExperts + (c.numExperts - 1 - e' : Int) <
      c.recencyOf layerId e * c.numExperts + (c.numExperts - 1 - e : Int) := by
  rw [fetchedBefore, if_pos rfl, decide_eq_true_iff] at before
  rcases before with later | ⟨same, le⟩
  · have apart : c.recencyOf layerId e' + 1 ≤ c.recencyOf layerId e := later
    have scaled := Int.mul_le_mul_of_nonneg_right apart (Int.natCast_nonneg c.numExperts)
    rw [Int.add_mul, Int.one_mul] at scaled
    omega
  · rw [same]
    omega

/-! ## The loop -/

/-- The turns of the loop so far agree with the fetches of the reference so far. -/
structure InStep (byRecency : Bool) (layerId : Nat) (expertIds : List Nat)
    (before : OffloadMoeCache) (s : FetchState) (idx : Nat) (rest : List Nat) : Prop where
  serving : s.cache.Serving layerId (seenExperts expertIds)
  slots : s.cache.cacheSize = before.cacheSize
  experts : s.cache.numExperts = before.numExperts
  uses : ∀ slot < block before.cacheSize, s.uses slot =
    if slot < before.cacheSize ∧ s.cache.usage slot < s.cache.step
    then some (s.cache.usage slot) else none
  owner : ∀ slot < before.cacheSize, s.cache.usage slot < s.cache.step →
    before.idOfSlot slot = s.cache.idOfSlot slot
  nodup : rest.Nodup
  missing : ∀ expert ∈ rest, expert ∈ seenExperts expertIds ∧
    s.cache.slotOf layerId expert = -1
  sorted : rest.Pairwise fun e e' => fetchedBefore byRecency before layerId e e'
  ranks : byRecency = false → ∀ i expert, rest[i]? = some expert →
    before.laneOfRank layerId expertIds (idx + i) = expert
  scores : byRecency = true → ∀ lane < block before.numExperts, s.scores lane =
    if lane ∈ rest then some (before.recencyOf layerId lane * before.numExperts +
      (before.numExperts - 1 - lane)) else none

namespace InStep

variable {before : OffloadMoeCache} {s : FetchState} {idx : Nat} {rest : List Nat}

theorem victim_eq (step : InStep byRecency layerId expertIds before s idx (expert :: rest)) :
    firstBest (block before.cacheSize) (fun a b => below (s.uses a) (s.uses b)) =
      s.cache.leastUsed := by
  obtain ⟨mem, away⟩ := step.missing expert List.mem_cons_self
  obtain ⟨inside, unused⟩ := step.serving.victim mem away
  have some_ : 0 < s.cache.cacheSize := by omega
  obtain ⟨-, least, first⟩ := leastUsed_spec some_
  rw [step.slots] at inside least
  have free : s.uses s.cache.leastUsed = some (s.cache.usage s.cache.leastUsed) := by
    rw [step.uses _ (inside.trans_le (le_block _)), if_pos ⟨inside, unused⟩]
  apply firstBest_eq (ranks_below s.uses) (inside.trans_le (le_block _))
  · intro slot lt
    rw [free, step.uses slot lt]
    split
    · next here =>
      have le := least slot here.1
      simpa [below] using le
    · exact Bool.false_ne_true
  · intro slot earlier
    rw [free, step.uses slot ((earlier.trans inside).trans_le (le_block _))]
    split
    · exact decide_eq_true (first slot earlier)
    · rfl

theorem expert_eq (step : InStep byRecency layerId expertIds before s idx (expert :: rest)) :
    (if byRecency then
        firstBest (block before.numExperts) fun a b => above (s.scores a) (s.scores b)
      else before.laneOfRank layerId expertIds idx) = expert := by
  have inLayer : ∀ e ∈ expert :: rest, e < before.numExperts := by
    intro e mem
    rw [← step.experts]
    exact step.serving.experts e (step.missing e mem).1
  cases byRecency with
  | false =>
    rw [if_neg Bool.false_ne_true]
    exact step.ranks rfl 0 expert rfl
  | true =>
    rw [if_pos rfl]
    have inside := inLayer expert List.mem_cons_self
    have wins : ∀ lane < block before.numExperts, lane ≠ expert →
        above (s.scores expert) (s.scores lane) := by
      intro lane lt ne
      rw [step.scores rfl lane lt, step.scores rfl expert (inside.trans_le (le_block _)),
        if_pos List.mem_cons_self]
      split
      · next mem =>
        have later : lane ∈ rest := (List.mem_cons.mp mem).resolve_left ne
        have ordered := (List.pairwise_cons.mp step.sorted).1 lane later
        exact decide_eq_true (score_lt inside ne ordered)
      · rfl
    have ranks := ranks_above s.scores
    apply firstBest_eq ranks (inside.trans_le (le_block _))
    · intro lane lt better
      by_cases same : lane = expert
      · rw [same] at better
        exact ranks.asymm expert expert better better
      · exact ranks.asymm lane expert better (wins lane lt same)
    · intro lane earlier
      exact wins lane ((earlier.trans inside).trans_le (le_block _)) earlier.ne

theorem fetch_eq (step : InStep byRecency layerId expertIds before s idx (expert :: rest)) :
    (kernelFetch byRecency layerId expertIds before s idx).cache =
      s.cache.fetchExpert layerId idx expert := by
  obtain ⟨mem, away⟩ := step.missing expert List.mem_cons_self
  obtain ⟨inside, unused⟩ := step.serving.victim mem away
  have owner := step.owner s.cache.leastUsed (step.slots ▸ inside) unused
  rw [kernelFetch]
  simp only [step.victim_eq, if_pos (step.slots ▸ inside), owner]
  rw [step.expert_eq]
  rfl

theorem next (step : InStep byRecency layerId expertIds before s idx (expert :: rest)) :
    InStep byRecency layerId expertIds before
      (kernelFetch byRecency layerId expertIds before s idx) (idx + 1) rest := by
  obtain ⟨mem, away⟩ := step.missing expert List.mem_cons_self
  obtain ⟨inside, unused⟩ := step.serving.victim mem away
  obtain ⟨new, nodup⟩ := List.nodup_cons.mp step.nodup
  have uses : (kernelFetch byRecency layerId expertIds before s idx).uses =
      Function.update s.uses s.cache.leastUsed none := by
    rw [← step.victim_eq]
    rfl
  have usage : ∀ slot, (s.cache.fetchExpert layerId idx expert).usage slot =
      if slot = s.cache.leastUsed then s.cache.step else s.cache.usage slot :=
    fun slot => Function.update_apply _ _ _ _
  have owners : ∀ slot ≠ s.cache.leastUsed,
      (s.cache.fetchExpert layerId idx expert).idOfSlot slot = s.cache.idOfSlot slot :=
    fun slot ne => Function.update_of_ne ne _ _
  refine ⟨?_, ?_, ?_, ?_, ?_, nodup, ?_, (List.pairwise_cons.mp step.sorted).2, ?_, ?_⟩
  · rw [step.fetch_eq]
    exact step.serving.fetchExpert mem away
  · exact step.slots
  · exact step.experts
  · intro slot lt
    rw [uses, step.fetch_eq, usage, Function.update_apply]
    show _ = if slot < before.cacheSize ∧ _ < s.cache.step then _ else _
    by_cases here : slot = s.cache.leastUsed
    · rw [if_pos here, if_pos here, if_neg (by omega)]
    · rw [if_neg here, if_neg here]
      exact step.uses slot lt
  · intro slot lt below
    rw [step.fetch_eq, usage] at below
    rw [step.fetch_eq]
    by_cases here : slot = s.cache.leastUsed
    · rw [if_pos here] at below
      exact absurd below (lt_irrefl _)
    · rw [if_neg here] at below
      rw [owners slot here]
      exact step.owner slot lt below
  · intro e later
    obtain ⟨mem', away'⟩ := step.missing e (List.mem_cons_of_mem _ later)
    have ne : e ≠ expert := fun same => new (same ▸ later)
    rw [step.fetch_eq]
    exact ⟨mem', (step.serving.slotOf_fetchExpert mem away mem' ne).trans away'⟩
  · intro rank i e here
    have found := step.ranks rank (i + 1) e here
    rwa [Nat.add_assoc, Nat.add_comm 1 i]
  · intro recent lane lt
    have struck : (kernelFetch byRecency layerId expertIds before s idx).scores =
        Function.update s.scores expert none := by
      have chosen := step.expert_eq
      subst recent
      rw [if_pos rfl] at chosen
      rw [← chosen]
      rfl
    rw [struck, Function.update_apply]
    split
    · next here => rw [here, if_neg new]
    · next other =>
      rw [step.scores recent lane lt]
      refine if_congr ?_ rfl rfl
      rw [List.mem_cons, or_iff_right other]

theorem fetches (step : InStep byRecency layerId expertIds before s idx rest) (count : Nat)
    (enough : count ≤ rest.length) :
    ((List.range' idx count).foldl (kernelFetch byRecency layerId expertIds before) s).cache =
      fetchAll layerId idx (rest.take count) s.cache := by
  induction count generalizing s idx rest with
  | zero => rfl
  | succ count ih =>
    cases rest with
    | nil => exact absurd enough (Nat.not_succ_le_zero count)
    | cons expert rest =>
      rw [List.range'_succ, List.foldl_cons, ih step.next (Nat.le_of_succ_le_succ enough),
        step.fetch_eq, List.take_succ_cons, fetchAll]

end InStep

/-! ## The step -/

include inside in
theorem laneScore_opened (lane : Nat) :
    (c.opened byRecency layerId expertIds limit).laneScore layerId expertIds lane =
      if lane ∈ c.misses byRecency layerId expertIds then
        some (c.recencyOf layerId lane * c.numExperts + (c.numExperts - 1 - lane))
      else none := by
  show (if c.laneMissing layerId expertIds lane then
    some (c.recencyOf layerId lane * c.numExperts + (c.numExperts - 1 - lane)) else none) = _
  exact if_congr (laneMissing_iff byRecency inside) rfl rfl

theorem laneUsage_serving (serving : c.Serving layerId (seenExperts expertIds)) (slot : Nat) :
    c.laneUsage layerId expertIds slot = if slot < c.cacheSize ∧ c.usage slot < c.step
      then some (c.usage slot) else none := by
  have pinned := serving.pinned slot
  simp only [mem_seenExperts, ← ownerActive_iff] at pinned
  rw [laneUsage]
  by_cases lt : slot < c.cacheSize
  · have le := serving.used slot lt
    by_cases used : c.usage slot = c.step
    · rw [if_pos (.inl ((pinned lt).mp used)), if_neg fun both => absurd used both.2.ne]
    · rw [if_neg, if_pos ⟨lt, lt_of_le_of_ne le used⟩]
      rintro (owner | outside)
      · exact used ((pinned lt).mpr owner)
      · exact outside lt
  · rw [if_pos (.inr lt), if_neg fun both => lt both.1]

variable (byRecency limit) in
include valid layer inside in
theorem Valid.inStep :
    InStep byRecency layerId expertIds (c.opened byRecency layerId expertIds limit)
      ⟨c.opened byRecency layerId expertIds limit,
        (c.opened byRecency layerId expertIds limit).laneUsage layerId expertIds,
        (c.opened byRecency layerId expertIds limit).laneScore layerId expertIds⟩
      0 (c.misses byRecency layerId expertIds) := by
  have serving := valid.opened byRecency limit layer inside
  refine ⟨serving, rfl, rfl, fun slot _ => laneUsage_serving serving slot, fun _ _ _ => rfl,
    nodup_misses, ?_, sorted_misses, ?_, fun _ lane _ => laneScore_opened inside lane⟩
  · intro expert mem
    obtain ⟨routed, away⟩ := mem_misses.mp mem
    exact ⟨mem_seenExperts.mpr routed, away⟩
  · intro rank i expert here
    subst rank
    rw [Nat.zero_add]
    exact laneOfRank_eq inside here

include inside in
theorem activeMask_eq :
    storeLanes (block c.numExperts) (fun lane => lane < c.numExperts) id
      (fun lane => if laneActive expertIds lane then 1 else 0) c.activeMask =
      (c.begin (seenExperts expertIds)).activeMask := by
  funext x
  show _ = storeEach (seenExperts expertIds) (fun _ => true) id (fun _ => 1) _ x
  rw [storeEach_const]
  have routed : (∃ expert ∈ seenExperts expertIds, true = true ∧ id expert = x) ↔
      x ∈ expertIds := by
    simp [mem_seenExperts]
  rw [if_congr routed rfl rfl]
  by_cases lt : x < c.numExperts
  · rw [if_pos lt, storeLanes]
    apply storeEach_of_lane
    · rintro lane - - rfl
      exact if_congr laneActive_iff rfl rfl
    · exact ⟨x, List.mem_range.mpr (lt.trans_le (le_block _)), by simpa using lt, rfl⟩
  · rw [if_neg lt, if_neg fun mem => lt (inside x mem), storeLanes]
    apply storeEach_of_not
    rintro lane - on rfl
    exact lt (by simpa using on)

include valid layer inside in
theorem usage_eq :
    storeLanes (block c.numExperts)
      (fun lane => laneActive expertIds lane && decide (0 ≤ c.laneSlot layerId lane))
      (fun lane => (c.laneSlot layerId lane).toNat) (fun _ => c.step + 1) c.usage =
      (c.begun layerId expertIds).usage := by
  apply storeEach_const_congr
  intro x
  show _ ↔ ∃ lane ∈ seenExperts expertIds, (c.slotOf layerId lane != -1) = true ∧
    (c.slotOf layerId lane).toNat = x
  have slot : ∀ lane ∈ expertIds, c.laneSlot layerId lane = c.slotOf layerId lane :=
    fun lane mem => if_pos (inside lane mem)
  have known := fun lane mem => valid.coherent.slotOf_nonneg (id_lt layer (inside lane mem))
  constructor
  · rintro ⟨lane, -, on, here⟩
    rw [Bool.and_eq_true, laneActive_iff, decide_eq_true_iff] at on
    obtain ⟨mem, there⟩ := on
    rw [slot lane mem] at there here
    exact ⟨lane, mem_seenExperts.mpr mem, bne_iff_ne.mpr ((known lane mem).mp there), here⟩
  · rintro ⟨lane, mem, on, here⟩
    have routed := mem_seenExperts.mp mem
    have there := (known lane routed).mpr (bne_iff_ne.mp on)
    refine ⟨lane, List.mem_range.mpr ((inside lane routed).trans_le (le_block _)), ?_, ?_⟩
    · rw [Bool.and_eq_true, laneActive_iff, decide_eq_true_iff, slot lane routed]
      exact ⟨routed, there⟩
    · rw [slot lane routed]
      exact here

include inside in
theorem kernelNoteRecency_eq :
    c.kernelNoteRecency byRecency layerId expertIds =
      c.noteRecency byRecency layerId (seenExperts expertIds) := by
  have noted : storeLanes (block c.numExperts)
      (fun lane => laneActive expertIds lane && decide (lane < c.numExperts))
      (fun lane => layerId * c.numExperts + lane) (fun _ => c.step) c.expertRecency =
      storeEach (seenExperts expertIds) (fun _ => true)
        (fun expert => layerId * c.numExperts + expert) (fun _ => c.step) c.expertRecency := by
    apply storeEach_const_congr
    intro x
    constructor
    · rintro ⟨lane, -, on, here⟩
      rw [Bool.and_eq_true, laneActive_iff] at on
      exact ⟨lane, mem_seenExperts.mpr on.1, rfl, here⟩
    · rintro ⟨lane, mem, -, here⟩
      have routed := mem_seenExperts.mp mem
      refine ⟨lane, List.mem_range.mpr ((inside lane routed).trans_le (le_block _)), ?_, here⟩
      rw [Bool.and_eq_true, laneActive_iff, decide_eq_true_iff]
      exact ⟨routed, inside lane routed⟩
  rw [kernelNoteRecency, noteRecency, noted]

variable (byRecency) in
include valid layer inside in
/-- The vector program starts its loop where the reference starts its fetches. -/
theorem Valid.kernelOpened_eq (maxFetch frac : Int) :
    c.kernelOpened layerId expertIds maxFetch frac = c.opened byRecency layerId expertIds
      (kernelFetchLimit (c.misses byRecency layerId expertIds).length maxFetch frac) := by
  rw [kernelOpened, activeMask_eq inside, usage_eq valid layer inside,
    laneCount_missing byRecency inside]
  rfl

include valid layer inside in
theorem Valid.kernelFetchAll_eq :
    (c.opened byRecency layerId expertIds limit).kernelFetchAll byRecency layerId expertIds =
      fetchAll layerId 0 (c.fetches byRecency layerId expertIds limit)
        (c.opened byRecency layerId expertIds limit) := by
  have start := valid.inStep byRecency limit layer inside
  have enough : (c.numFetch byRecency layerId expertIds limit).toNat ≤
      (c.misses byRecency layerId expertIds).length := by
    rw [numFetch]
    omega
  have loop := start.fetches _ enough
  rw [← List.range_eq_range'] at loop
  exact loop

include valid layer inside in
theorem Valid.ensureHybridKernel_eq (maxFetch frac : Int) :
    c.ensureHybridKernel byRecency layerId expertIds maxFetch frac =
      c.served byRecency layerId expertIds
        (kernelFetchLimit (c.misses byRecency layerId expertIds).length maxFetch frac) := by
  have fetched := valid.fetched byRecency
    (kernelFetchLimit (c.misses byRecency layerId expertIds).length maxFetch frac) layer inside
  have experts := fun expert mem => fetched.serving.experts expert (mem_seenExperts.mpr mem)
  rw [ensureHybridKernel, valid.kernelOpened_eq byRecency layer inside,
    valid.kernelFetchAll_eq layer inside, kernelNoteRecency_eq experts, OffloadMoeCache.served]
  refine Prod.ext rfl (List.map_congr_left fun expert _ => ?_)
  exact (slotOf_noteRecency _ _).symm

end FreeSwarm.Moe.OffloadMoeCache
