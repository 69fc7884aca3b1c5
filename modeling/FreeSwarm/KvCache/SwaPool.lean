import FreeSwarm.Foundation.Pages
import FreeSwarm.Foundation.Scatter

/-!
# The window pool

`HybridSWAKVCache` keeps the keys and values of the window layers in a pool of its own. A slot of the full pool
is sent to its slot there by a mapping, where zero stands for none. As long as callers name no slot twice in a
call, no slot of the pool is free and in use, or behind two slots of the full pool.
-/

namespace FreeSwarm.KvCache

open FreeSwarm.Foundation

/-- The window pool. -/
structure HybridSWAKVCache where
  /-- `_swa_num_tokens`: the slots, with slot zero that is never used. -/
  swaNumTokens : Nat
  /-- `full_to_swa_index_mapping`. -/
  fullToSwa : Int → Int
  swaFree : List Int

namespace HybridSWAKVCache

/-- `_init_swa_paged_state`: every slot but the first is free, and the last entry of the mapping, which has the
index `-1`, is `-1`. -/
def initSwaPagedState (swaNumTokens : Nat) : HybridSWAKVCache :=
  { swaNumTokens := swaNumTokens
    fullToSwa := fun i => if i = -1 then -1 else 0
    swaFree := (List.range' 1 (swaNumTokens - 1)).map fun slot : Nat => (slot : Int) }

variable (p : HybridSWAKVCache)

def swaAvailableSize : Nat := p.swaFree.length

/-- `alloc_swa`: one slot for each full slot; it raises when the pool is exhausted. -/
def allocSwa (fullIndices : List Int) : Option HybridSWAKVCache :=
  if fullIndices.length ≤ p.swaFree.length then
    some
      { p with
        swaFree := p.swaFree.drop fullIndices.length
        fullToSwa := scatter p.fullToSwa fullIndices (p.swaFree.take fullIndices.length) }
  else none

/-- `free_swa`: give the slots behind some full slots back. -/
def freeSwa (fullIndices : List Int) : HybridSWAKVCache :=
  { p with
    swaFree := p.swaFree ++ (fullIndices.map p.fullToSwa).filter fun slot => 0 < slot
    fullToSwa := fill p.fullToSwa fullIndices 0 }

/-- `move_swa`: put the slots behind some full slots behind others. -/
def moveSwa (dstFull srcFull : List Int) : Option HybridSWAKVCache :=
  if srcFull.length = 0 then some p
  else if dstFull.length = srcFull.length then
    let freed := p.freeSwa dstFull
    some
      { freed with
        fullToSwa := fill (scatter freed.fullToSwa dstFull (srcFull.map freed.fullToSwa)) srcFull 0 }
  else none

/-- No slot is free twice, free and in use, or behind two full slots. -/
structure Sound : Prop where
  positive : ∀ slot ∈ p.swaFree, 0 < slot
  distinct : p.swaFree.Nodup
  apart : ∀ i, 0 < p.fullToSwa i → p.fullToSwa i ∉ p.swaFree
  injective : ∀ i j, 0 < p.fullToSwa i → p.fullToSwa i = p.fullToSwa j → i = j

theorem sound_init (swaNumTokens : Nat) : (initSwaPagedState swaNumTokens).Sound := by
  have none : ∀ i, ¬ 0 < (initSwaPagedState swaNumTokens).fullToSwa i := by
    intro i
    simp only [initSwaPagedState]
    split <;> omega
  refine { positive := ?_, distinct := ?_, apart := fun i used => absurd used (none i),
           injective := fun i _ used => absurd used (none i) }
  · intro slot mem
    obtain ⟨n, inside, rfl⟩ := List.mem_map.mp mem
    have first := (List.mem_range'_1.mp inside).1
    omega
  · exact (List.nodup_range' 1).map fun a b same => by simpa using same

variable {p p' : HybridSWAKVCache} {full dst src : List Int}

/-! ## Allocation -/

theorem allocSwa_other (done : p.allocSwa full = some p') {i : Int} (other : i ∉ full) :
    p'.fullToSwa i = p.fullToSwa i := by
  unfold allocSwa at done
  split at done
  case isTrue =>
    cases done
    exact scatter_of_not_mem other
  case isFalse => cases done

theorem allocSwa_named (done : p.allocSwa full = some p') (names : full.Nodup) {i : Int} (mem : i ∈ full) :
    ∃ k, full[k]? = some i ∧ p.swaFree[k]? = some (p'.fullToSwa i) ∧ k < full.length := by
  unfold allocSwa at done
  split at done
  case isTrue enough =>
    cases done
    obtain ⟨k, inside, rfl⟩ := List.getElem_of_mem mem
    have index : full[k]? = some full[k] := List.getElem?_eq_getElem inside
    have room : k < p.swaFree.length := by omega
    have slot : (p.swaFree.take full.length)[k]? = some p.swaFree[k] := by
      rw [List.getElem?_take, if_pos inside, List.getElem?_eq_getElem]
    refine ⟨k, index, ?_, inside⟩
    simp only
    rw [scatter_of_getElem? names index slot, List.getElem?_eq_getElem]
  case isFalse => cases done

theorem Sound.alloc (h : p.Sound) (done : p.allocSwa full = some p') (names : full.Nodup) : p'.Sound := by
  have free : p'.swaFree = p.swaFree.drop full.length := by
    unfold allocSwa at done
    split at done
    case isTrue =>
      cases done
      rfl
    case isFalse => cases done
  have split : (p.swaFree.take full.length ++ p.swaFree.drop full.length).Nodup := by
    rw [List.take_append_drop]
    exact h.distinct
  have taken : ∀ i ∈ full, p'.fullToSwa i ∈ p.swaFree.take full.length := by
    intro i mem
    obtain ⟨k, -, slot, inside⟩ := allocSwa_named done names mem
    refine List.mem_of_getElem? (i := k) ?_
    rw [List.getElem?_take, if_pos inside]
    exact slot
  refine { positive := ?_, distinct := ?_, apart := ?_, injective := ?_ }
  · rw [free]
    exact fun slot mem => h.positive slot (List.mem_of_mem_drop mem)
  · rw [free]
    exact h.distinct.drop
  · rw [free]
    intro i used left
    by_cases mem : i ∈ full
    · exact (List.nodup_append.mp split).2.2 _ (taken i mem) _ left rfl
    · rw [allocSwa_other done mem] at used left
      exact h.apart i used (List.mem_of_mem_drop left)
  · intro i j used same
    by_cases hi : i ∈ full
    · by_cases hj : j ∈ full
      · obtain ⟨k, index, slot, -⟩ := allocSwa_named done names hi
        obtain ⟨k', index', slot', -⟩ := allocSwa_named done names hj
        rw [same] at slot
        obtain ⟨inside, -⟩ := List.getElem?_eq_some_iff.mp slot
        obtain rfl := (List.getElem?_inj inside h.distinct).mp (slot.trans slot'.symm)
        exact Option.some.inj (index.symm.trans index')
      · have before := List.mem_of_mem_take (taken i hi)
        rw [same, allocSwa_other done hj] at before used
        exact absurd before (h.apart j used)
    · by_cases hj : j ∈ full
      · have before := List.mem_of_mem_take (taken j hj)
        rw [← same, allocSwa_other done hi] at before
        rw [allocSwa_other done hi] at used
        exact absurd before (h.apart i used)
      · rw [allocSwa_other done hi, allocSwa_other done hj] at same
        rw [allocSwa_other done hi] at used
        exact h.injective i j used same

/-! ## Release -/

/-- A release leaves no slot behind the full slots that it names, and changes no other. -/
theorem freeSwa_fullToSwa (p : HybridSWAKVCache) (full : List Int) (i : Int) :
    (p.freeSwa full).fullToSwa i = if i ∈ full then 0 else p.fullToSwa i := rfl

theorem Sound.free (h : p.Sound) (names : full.Nodup) : (p.freeSwa full).Sound := by
  have given : ∀ slot, slot ∈ (full.map p.fullToSwa).filter (fun slot => 0 < slot) ↔
      ∃ i ∈ full, p.fullToSwa i = slot ∧ 0 < slot := by
    intro slot
    simp only [List.mem_filter, List.mem_map, decide_eq_true_eq]
    constructor
    · rintro ⟨⟨i, mem, rfl⟩, used⟩
      exact ⟨i, mem, rfl, used⟩
    · rintro ⟨i, mem, rfl, used⟩
      exact ⟨⟨i, mem, rfl⟩, used⟩
  -- Slots that are still in use after the release belong to full slots that were not named.
  have kept : ∀ i, 0 < (p.freeSwa full).fullToSwa i →
      i ∉ full ∧ (p.freeSwa full).fullToSwa i = p.fullToSwa i := by
    intro i used
    rw [freeSwa_fullToSwa] at used ⊢
    by_cases mem : i ∈ full
    · rw [if_pos mem] at used
      omega
    · exact ⟨mem, if_neg mem⟩
  refine { positive := ?_, distinct := ?_, apart := ?_, injective := ?_ }
  · intro slot mem
    rcases List.mem_append.mp mem with mem | mem
    · exact h.positive slot mem
    · obtain ⟨i, -, -, used⟩ := (given slot).mp mem
      exact used
  · refine List.nodup_append.mpr ⟨h.distinct, ?_, ?_⟩
    · rw [List.filter_map]
      refine (names.filter _).map_on fun i hi j hj same => ?_
      exact h.injective i j (by simpa using (List.mem_filter.mp hi).2) same
    · rintro slot free _ mem rfl
      obtain ⟨i, -, rfl, used⟩ := (given slot).mp mem
      exact h.apart i used free
  · intro i used mem
    obtain ⟨other, same⟩ := kept i used
    rw [same] at used mem
    rcases List.mem_append.mp mem with mem | mem
    · exact h.apart i used mem
    · obtain ⟨j, named, equal, -⟩ := (given _).mp mem
      exact other (h.injective i j used equal.symm ▸ named)
  · intro i j used same
    obtain ⟨-, left⟩ := kept i used
    rw [same] at used
    obtain ⟨-, right⟩ := kept j used
    rw [right] at used
    rw [left, right] at same
    exact h.injective i j (same ▸ used) same

/-! ## Moves -/

theorem moveSwa_other (done : p.moveSwa dst src = some p') {i : Int} (outDst : i ∉ dst) (outSrc : i ∉ src) :
    p'.fullToSwa i = p.fullToSwa i := by
  unfold moveSwa at done
  split at done
  case isTrue =>
    cases done
    rfl
  case isFalse =>
    split at done
    case isTrue =>
      cases done
      change fill _ src 0 i = _
      rw [fill_of_not_mem outSrc, scatter_of_not_mem outDst, freeSwa_fullToSwa, if_neg outDst]
    case isFalse => cases done

theorem Sound.move (h : p.Sound) (done : p.moveSwa dst src = some p') (names : dst.Nodup)
    (sources : src.Nodup) : p'.Sound := by
  unfold moveSwa at done
  split at done
  case isTrue =>
    cases done
    exact h
  case isFalse =>
    split at done
    case isFalse => cases done
    case isTrue lengths =>
      cases done
      have freed := h.free names
      -- What is behind a full slot after the move was behind one before: its own, or the one it took over from.
      have origin : ∀ i, 0 < fill (scatter (p.freeSwa dst).fullToSwa dst (src.map (p.freeSwa dst).fullToSwa))
            src 0 i → i ∉ src ∧ ∃ j : Int,
          fill (scatter (p.freeSwa dst).fullToSwa dst (src.map (p.freeSwa dst).fullToSwa)) src 0 i =
            (p.freeSwa dst).fullToSwa j ∧
          ((i ∉ dst ∧ j = i) ∨ ∃ k : Nat, dst[k]? = some i ∧ src[k]? = some j) := by
        intro i used
        by_cases emptied : i ∈ src
        · rw [fill_of_mem emptied] at used
          omega
        · refine ⟨emptied, ?_⟩
          rw [fill_of_not_mem emptied]
          by_cases filled : i ∈ dst
          · obtain ⟨k, inside, rfl⟩ := List.getElem_of_mem filled
            have inside' : k < src.length := by omega
            refine ⟨src[k], ?_, .inr ⟨k, List.getElem?_eq_getElem inside, List.getElem?_eq_getElem inside'⟩⟩
            refine scatter_of_getElem? names (List.getElem?_eq_getElem inside) ?_
            rw [List.getElem?_map, List.getElem?_eq_getElem inside', Option.map_some]
          · exact ⟨i, scatter_of_not_mem filled, .inl ⟨filled, rfl⟩⟩
      refine { positive := freed.positive, distinct := freed.distinct, apart := ?_, injective := ?_ }
      · intro i used mem
        obtain ⟨-, j, same, -⟩ := origin i used
        simp only [same] at used mem
        exact freed.apart j used mem
      · intro i i' used same
        simp only at used same
        obtain ⟨out, j, left, place⟩ := origin i used
        obtain ⟨out', j', right, place'⟩ := origin i' (same ▸ used)
        have sameSource := freed.injective j j' (left ▸ used) (left.symm.trans (same.trans right))
        subst sameSource
        rcases place with ⟨-, own⟩ | ⟨k, index, source⟩
        · rcases place' with ⟨-, own'⟩ | ⟨k', -, source'⟩
          · exact own.symm.trans own'
          · exact absurd (own ▸ List.mem_of_getElem? source') out
        · rcases place' with ⟨-, own'⟩ | ⟨k', index', source'⟩
          · exact absurd (own' ▸ List.mem_of_getElem? source) out'
          · obtain ⟨inside, -⟩ := List.getElem?_eq_some_iff.mp source
            obtain rfl := (List.getElem?_inj inside sources).mp (source.trans source'.symm)
            exact Option.some.inj (index.symm.trans index')

/-! ## What others do -/

/-- What allocations, releases and moves elsewhere make of the pool: they name full slots outside of `own`, and
none twice in a call. -/
inductive Elsewhere (own : Int → Prop) (p : HybridSWAKVCache) : HybridSWAKVCache → Prop where
  | refl : Elsewhere own p p
  | alloc {p' p'' : HybridSWAKVCache} {full : List Int} : Elsewhere own p p' → (∀ i ∈ full, ¬ own i) →
    full.Nodup → p'.allocSwa full = some p'' → Elsewhere own p p''
  | free {p' : HybridSWAKVCache} {full : List Int} : Elsewhere own p p' → (∀ i ∈ full, ¬ own i) →
    full.Nodup → Elsewhere own p (p'.freeSwa full)
  | move {p' p'' : HybridSWAKVCache} {dst src : List Int} : Elsewhere own p p' → (∀ i ∈ dst, ¬ own i) →
    (∀ i ∈ src, ¬ own i) → dst.Nodup → src.Nodup → p'.moveSwa dst src = some p'' → Elsewhere own p p''

theorem Elsewhere.keeps {own : Int → Prop} (e : Elsewhere own p p') (h : p.Sound) :
    p'.Sound ∧ ∀ i, own i → p'.fullToSwa i = p.fullToSwa i := by
  induction e with
  | refl => exact ⟨h, fun _ _ => rfl⟩
  | alloc _ outside names done ih =>
    refine ⟨ih.1.alloc done names, fun i mine => ?_⟩
    rw [allocSwa_other done fun mem => outside i mem mine, ih.2 i mine]
  | free _ outside names ih =>
    refine ⟨ih.1.free names, fun i mine => ?_⟩
    rw [freeSwa_fullToSwa, if_neg fun mem => outside i mem mine, ih.2 i mine]
  | move _ outDst outSrc names sources done ih =>
    refine ⟨ih.1.move done names sources, fun i mine => ?_⟩
    rw [moveSwa_other done (fun mem => outDst i mem mine) fun mem => outSrc i mem mine, ih.2 i mine]

/-! ## The size of the pool -/

def swaRetainGap : Nat := 16

/-- `_swa_per_req_swa_floor`: the slots that one request holds while it decodes, by the window, the eviction
interval and whether anchors of tool calls are kept. -/
def swaPerReqSwaFloor (pageSize window interval : Nat) (specialTokenCkpt : Bool) : Nat :=
  let locked := (window + swaRetainGap + pageSize - 1) / pageSize * pageSize
  let floor := locked + window + interval + 2 * pageSize
  if specialTokenCkpt then floor + (window + swaRetainGap + interval) else floor

/-- `_swa_pool_floor`: as many slots for each request that may run. -/
def swaPoolFloor (maxRunningReq perReqFloor : Nat) : Nat := maxRunningReq * perReqFloor

/-- `_swa_paged_num_tokens`: the size of the pool; the target is the pinned window, or the part of the full pool
that is meant for it. -/
def swaPagedNumTokens (poolFloor target : Nat) : Nat := max poolFloor target + 1

end HybridSWAKVCache

end FreeSwarm.KvCache
