import Mathlib.Algebra.Ring.Divisibility.Basic
import Mathlib.Data.List.Perm.Subperm
import FreeSwarm.Scheduler.SwaWindow

/-!
# What a request gives back and what it holds

The drivers give back only what is behind the window of the tokens to come, only what the request owns, and
nothing twice. What the request holds is then bounded by the tokens that were launched since the driver last
looked at it.
-/

namespace FreeSwarm.Scheduler

open FreeSwarm.Foundation FreeSwarm.KvCache

section Pages

variable {page : Nat}

theorem alignDown_le (positive : 0 < page) (n : Int) : alignDown n page ≤ n :=
  Int.ediv_mul_le n (by omega)

theorem lt_alignDown_add (positive : 0 < page) (n : Int) : n < alignDown n page + page := by
  have next := Int.lt_ediv_add_one_mul_self n (show (0 : Int) < page by omega)
  rw [add_mul, one_mul] at next
  exact next

theorem dvd_alignDown (n : Int) (page : Nat) : (page : Int) ∣ alignDown n page := Dvd.intro_left _ rfl

/-- From the page that a bound fell in to the end of the last page there are at most the tokens since then, in
whole pages, and two pages. -/
theorem pageCeil_sub_alignDown_le (positive : 0 < page) (len back : Nat) :
    (pageCeil page len : Int) - alignDown ((len : Int) - (back + 1) - page) page ≤
      pageCeil page back + 2 * page := by
  have top := pageCeil_lt positive len
  have bottom := lt_alignDown_add positive ((len : Int) - (back + 1) - page)
  have room := le_pageCeil positive back
  by_contra beyond
  have whole : (page : Int) ∣ (pageCeil page len : Int) -
      alignDown ((len : Int) - (back + 1) - page) page - (pageCeil page back + 2 * page) := by
    refine dvd_sub (dvd_sub ?_ (dvd_alignDown _ page)) (dvd_add ?_ (Dvd.intro_left _ rfl))
    · exact Int.natCast_dvd_natCast.mpr (dvd_pageCeil page len)
    · exact Int.natCast_dvd_natCast.mpr (dvd_pageCeil page back)
  have page_le := Int.le_of_dvd (by omega) whole
  omega

end Pages

variable {cfg : SwaConfig}

/-- What is true of a request and the pool at all times: its own positions have slots behind the full slots of
the row from the watermark on, and no others. -/
structure Tidy (cfg : SwaConfig) (r : SwaReq) (pool : HybridSWAKVCache) : Prop where
  sound : pool.Sound
  handle_dvd : cfg.pageSize ∣ r.handleLen
  handle_le : r.handleLen ≤ r.cachedLen
  evicted_dvd : cfg.pageSize ∣ r.swaEvictedSeqlen
  evicted_le : r.swaEvictedSeqlen ≤ r.cachedLen
  live : ∀ j, r.handleLen ≤ j → j < pageCeil cfg.pageSize r.cachedLen →
    (0 < pool.fullToSwa (r.row j) ↔ r.swaEvictedSeqlen ≤ j)
  distinct : ∀ j j', r.handleLen ≤ j → j < pageCeil cfg.pageSize r.cachedLen → r.handleLen ≤ j' →
    j' < pageCeil cfg.pageSize r.cachedLen → r.row j = r.row j' → j = j'

/-! ## The drivers -/

/-- What a run of a driver makes of a request, where `bound` is what it may release up to. -/
structure Driven (cfg : SwaConfig) (r : SwaReq) (pool : HybridSWAKVCache) (bound : Int) (p : Prepared) : Prop where
  tidy : Tidy cfg p.req p.pool
  cachedLen : p.req.cachedLen = r.cachedLen
  deviceLen : p.req.deviceLen = r.deviceLen
  handleLen : p.req.handleLen = r.handleLen
  later : r.swaEvictedSeqlen ≤ p.req.swaEvictedSeqlen
  once : p.released.Nodup
  released : ∀ j ∈ p.released, r.handleLen ≤ j ∧ r.swaEvictedSeqlen ≤ j ∧ j < p.req.swaEvictedSeqlen ∧
    (j : Int) < bound ∧ 0 < pool.fullToSwa (r.row j)

variable {s : SwaRun} {r : SwaReq} {pool : HybridSWAKVCache}

theorem Driven.idle (h : Tidy cfg r pool) (bound : Int) :
    Driven cfg r pool bound { req := r, pool := pool, released := [] } where
  tidy := h
  cachedLen := rfl
  deviceLen := rfl
  handleLen := rfl
  later := le_refl _
  once := List.nodup_nil
  released := fun _ mem => absurd mem List.not_mem_nil

theorem Tidy.release {bound : Int} (h : Tidy cfg r pool)
    (whole : (cfg.pageSize : Int) ∣ bound) (forwarded : bound ≤ r.cachedLen) :
    Driven cfg r pool bound (r.release pool bound) ∧
      bound ≤ max (r.release pool bound).req.swaEvictedSeqlen (r.release pool bound).req.handleLen := by
  have cached := le_pageCeil cfg.page_pos r.cachedLen
  unfold SwaReq.release
  dsimp only
  split
  case isFalse behind =>
    refine ⟨.idle h bound, ?_⟩
    dsimp only
    omega
  case isTrue ahead =>
    have inside : ∀ j, j ∈ List.range' (max r.swaEvictedSeqlen r.handleLen)
          (bound.toNat - max r.swaEvictedSeqlen r.handleLen) ↔
        r.swaEvictedSeqlen ≤ j ∧ r.handleLen ≤ j ∧ (j : Int) < bound := by
      intro j
      rw [List.mem_range'_1]
      omega
    have names : ((List.range' (max r.swaEvictedSeqlen r.handleLen)
        (bound.toNat - max r.swaEvictedSeqlen r.handleLen)).map r.row).Nodup := by
      refine (List.nodup_range' 1).map_on fun j mem j' mem' same => ?_
      obtain ⟨-, own, below⟩ := (inside j).mp mem
      obtain ⟨-, own', below'⟩ := (inside j').mp mem'
      exact h.distinct j j' own (by omega) own' (by omega) same
    have live : ∀ j, r.handleLen ≤ j → j < pageCeil cfg.pageSize r.cachedLen →
        (0 < (pool.freeSwa ((List.range' (max r.swaEvictedSeqlen r.handleLen)
          (bound.toNat - max r.swaEvictedSeqlen r.handleLen)).map r.row)).fullToSwa (r.row j) ↔
        bound.toNat ≤ j) := by
      intro j own last
      have before := h.live j own last
      rw [HybridSWAKVCache.freeSwa_fullToSwa]
      split
      case isTrue named =>
        obtain ⟨j', mem', same⟩ := List.mem_map.mp named
        obtain ⟨-, own', below'⟩ := (inside j').mp mem'
        obtain rfl := h.distinct j' j own' (by omega) own last same
        omega
      case isFalse unnamed =>
        have outside : ¬ (r.swaEvictedSeqlen ≤ j ∧ r.handleLen ≤ j ∧ (j : Int) < bound) :=
          fun mem => unnamed (List.mem_map_of_mem ((inside j).mpr mem))
        omega
    refine ⟨{ tidy := ?_, cachedLen := rfl, deviceLen := rfl, handleLen := rfl, later := ?_,
              once := List.nodup_range' 1, released := ?_ }, ?_⟩
    · refine { sound := h.sound.free names, handle_dvd := h.handle_dvd, handle_le := h.handle_le,
               evicted_dvd := ?_, evicted_le := ?_, live := live, distinct := h.distinct }
      · refine Int.natCast_dvd_natCast.mp ?_
        rw [Int.toNat_of_nonneg (by omega)]
        exact whole
      · dsimp only
        omega
    · dsimp only
      omega
    · intro j mem
      obtain ⟨new, own, below⟩ := (inside j).mp mem
      refine ⟨own, new, ?_, below, (h.live j own (by omega)).mpr new⟩
      dsimp only
      omega
    · dsimp only
      omega

theorem Tidy.extend (h : Tidy cfg r pool) :
    Driven cfg r pool (alignDown ((r.cachedLen : Int) - cfg.window - cfg.pageSize) cfg.pageSize)
        (freeSwaOutOfWindowExtend cfg r pool) ∧
      alignDown ((r.cachedLen : Int) - cfg.window - cfg.pageSize) cfg.pageSize ≤
        max (freeSwaOutOfWindowExtend cfg r pool).req.swaEvictedSeqlen
          (freeSwaOutOfWindowExtend cfg r pool).req.handleLen := by
  refine h.release (dvd_alignDown _ _) ?_
  have le := alignDown_le cfg.page_pos ((r.cachedLen : Int) - cfg.window - cfg.pageSize)
  omega

/-- How far an anchor may hold the bound back. -/
def anchorSlack (cfg : SwaConfig) (capped : Bool) : Nat :=
  if capped then cfg.window + HybridSWAKVCache.swaRetainGap else 0

/-- The bound of a decoding request is behind the window of the last token that was launched, but no further than
an anchor may hold it back. -/
theorem decodeThreshold_le (cfg : SwaConfig) (r : SwaReq) :
    (decodeThreshold cfg r).2 ≤ (r.deviceLen : Int) - 1 - cfg.window - cfg.pageSize ∧
      (r.deviceLen : Int) - 1 - cfg.window - anchorSlack cfg (decodeThreshold cfg r).1.toolcallAnchorLen.isSome -
        cfg.pageSize ≤ (decodeThreshold cfg r).2 := by
  unfold decodeThreshold anchorSlack
  dsimp only
  split
  case h_1 free =>
    simp only [free, Option.isSome_none]
    omega
  case h_2 anchor held =>
    split
    case isTrue => simp
    case isFalse near =>
      simp only [held, Option.isSome_some, if_true]
      push_cast
      omega

theorem decodeThreshold_req (cfg : SwaConfig) (r : SwaReq) :
    ∃ anchor, (decodeThreshold cfg r).1 = { r with toolcallAnchorLen := anchor } := by
  unfold decodeThreshold
  dsimp only
  split
  case h_1 => exact ⟨r.toolcallAnchorLen, rfl⟩
  case h_2 =>
    split
    case isTrue => exact ⟨none, rfl⟩
    case isFalse => exact ⟨r.toolcallAnchorLen, rfl⟩

theorem Tidy.decode (h : Tidy cfg r pool) (forwardIter : Nat)
    (next : r.deviceLen = r.cachedLen + 1) :
    Driven cfg r pool (alignDown (decodeThreshold cfg r).2 cfg.pageSize) (prepareDecode cfg forwardIter r pool) ∧
      (prepareDecode cfg forwardIter r pool).req.decodeBatchIdx = r.decodeBatchIdx + 1 ∧
      (looksAt cfg forwardIter r = true → alignDown (decodeThreshold cfg r).2 cfg.pageSize ≤
        max (prepareDecode cfg forwardIter r pool).req.swaEvictedSeqlen
          (prepareDecode cfg forwardIter r pool).req.handleLen) ∧
      (looksAt cfg forwardIter r = false → (prepareDecode cfg forwardIter r pool).released = []) := by
  have bound := (decodeThreshold_le cfg r).1
  have le := alignDown_le cfg.page_pos (decodeThreshold cfg r).2
  obtain ⟨anchor, same⟩ := decodeThreshold_req cfg r
  unfold prepareDecode maybeFreeSwaOutOfWindow
  dsimp only
  cases looks : looksAt cfg forwardIter r with
  | false =>
    have idle := Driven.idle h (alignDown (decodeThreshold cfg r).2 cfg.pageSize)
    refine ⟨?_, rfl, fun no => absurd no Bool.false_ne_true, fun _ => rfl⟩
    exact { idle with tidy := { h with } }
  | true =>
    rw [if_pos rfl, same]
    have tidy : Tidy cfg { r with toolcallAnchorLen := anchor } pool := { h with }
    obtain ⟨driven, reach⟩ := tidy.release (dvd_alignDown (decodeThreshold cfg r).2 cfg.pageSize)
      (by dsimp only; omega)
    refine ⟨?_, ?_, fun _ => reach, fun no => absurd no.symm Bool.false_ne_true⟩
    · exact { driven with tidy := { driven.tidy with } }
    · unfold SwaReq.release
      dsimp only
      split <;> rfl

/-! ## The slots of a batch -/

/-- A request that got its slots stays tidy, and keeps what the driver made of it. -/
theorem Tidy.seat {p : Prepared} {r : SwaReq} {pool : HybridSWAKVCache} (h : Tidy cfg p.req p.pool)
    (grow : p.req.cachedLen ≤ p.req.deviceLen) (seated : Seated cfg p r pool) :
    Tidy cfg r.completeOne pool ∧ ∃ row, r = { p.req with row := row } := by
  obtain ⟨evicted, allocated, elsewhere, length, names, fresh, done⟩ := seated
  obtain ⟨pool', alloc, same⟩ := Option.map_eq_some_iff.mp done
  cases same
  refine ⟨?_, _, rfl⟩
  obtain ⟨sound, kept⟩ := elsewhere.keeps h.sound
  have cached := le_pageCeil cfg.page_pos p.req.cachedLen
  have order := pageCeil_mono cfg.pageSize grow
  -- Positions up to the end of the last page are the request's own already, those behind it are new.
  have old : ∀ j, p.req.handleLen ≤ j → j < pageCeil cfg.pageSize p.req.cachedLen →
      p.req.row j ∉ allocated ∧ pool.fullToSwa (p.req.row j) = p.pool.fullToSwa (p.req.row j) := by
    intro j own last
    have outside : p.req.row j ∉ allocated := fun mem => fresh _ mem ⟨j, own, last, rfl⟩
    exact ⟨outside, (HybridSWAKVCache.allocSwa_other alloc outside).trans (kept _ ⟨j, own, last, rfl⟩)⟩
  have new : ∀ j, pageCeil cfg.pageSize p.req.cachedLen ≤ j → j < pageCeil cfg.pageSize p.req.deviceLen →
      allocated[j - pageCeil cfg.pageSize p.req.cachedLen]? =
        some (allocated.getD (j - pageCeil cfg.pageSize p.req.cachedLen) 0) := by
    intro j first last
    rw [List.getD_eq_getElem?_getD, List.getElem?_eq_getElem (by omega)]
    rfl
  refine { sound := sound.alloc alloc names, handle_dvd := h.handle_dvd,
           handle_le := h.handle_le.trans grow, evicted_dvd := h.evicted_dvd,
           evicted_le := h.evicted_le.trans grow, live := ?_, distinct := ?_ }
  · simp only [SwaReq.completeOne]
    intro j own last
    split
    case isTrue added =>
      obtain ⟨k, -, slot, -⟩ := HybridSWAKVCache.allocSwa_named alloc names
        (List.mem_of_getElem? (new j added.1 last))
      have positive := sound.positive _ (List.mem_of_getElem? slot)
      have below := h.evicted_le
      omega
    case isFalse before =>
      have inside : j < pageCeil cfg.pageSize p.req.cachedLen := by omega
      rw [(old j own inside).2]
      exact h.live j own inside
  · simp only [SwaReq.completeOne]
    intro j j' own last own' last' same
    split at same
    case isTrue added =>
      have index := new j added.1 last
      split at same
      case isTrue added' =>
        have index' := new j' added'.1 last'
        rw [← same, ← index] at index'
        have equal := (List.getElem?_inj (by omega) names).mp index'
        omega
      case isFalse before' =>
        exact absurd (same ▸ List.mem_of_getElem? index) (old j' own' (by omega)).1
    case isFalse before =>
      split at same
      case isTrue added' =>
        have index' := new j' added'.1 last'
        exact absurd (same ▸ List.mem_of_getElem? index') (old j own (by omega)).1
      case isFalse before' => exact h.distinct j j' own (by omega) own' (by omega) same

/-! ## All steps -/

/-- What is true at all times. -/
structure Kept (cfg : SwaConfig) (s : SwaRun) : Prop where
  tidy : Tidy cfg s.req s.pool
  deviceLen : s.promptLen ≤ s.req.cachedLen → s.req.deviceLen = s.req.cachedLen + 1
  decoded : 1 ≤ s.req.decodeBatchIdx → s.promptLen ≤ s.req.cachedLen ∧ ∀ q ∈ s.flight, q + 1 = s.req.cachedLen
  once : s.released.Nodup
  released : ∀ j ∈ s.released, j < s.req.swaEvictedSeqlen
  pass : s.passLen ≤ s.req.cachedLen
  cut : alignDown ((s.passLen : Int) - cfg.window - anchorSlack cfg s.capped - cfg.pageSize) cfg.pageSize ≤
    max s.req.swaEvictedSeqlen s.req.handleLen

theorem Kept.launch {p : Prepared} {r : SwaReq} {pool : HybridSWAKVCache} {bound : Int}
    {flight : List Nat} {passLen : Nat} {capped : Bool} (h : Kept cfg s) (req : SwaReq)
    (start : req.cachedLen = s.req.cachedLen) (mark : req.swaEvictedSeqlen = s.req.swaEvictedSeqlen)
    (driven : Driven cfg req s.pool bound p) (grow : req.cachedLen ≤ req.deviceLen)
    (seated : Seated cfg p r pool)
    (decoded : 1 ≤ p.req.decodeBatchIdx → s.promptLen ≤ req.deviceLen ∧ ∀ q ∈ flight, q + 1 = req.deviceLen)
    (pass : passLen ≤ req.cachedLen)
    (cut : alignDown ((passLen : Int) - cfg.window - anchorSlack cfg capped - cfg.pageSize) cfg.pageSize ≤
      max p.req.swaEvictedSeqlen p.req.handleLen) :
    Kept cfg
      { s with
        req := r.completeOne
        pool := pool
        flight := flight
        released := s.released ++ p.released
        passLen := passLen
        capped := capped } := by
  obtain ⟨tidy, row, rfl⟩ := driven.tidy.seat (by rw [driven.cachedLen, driven.deviceLen]; exact grow) seated
  have later := driven.later
  refine { tidy := tidy, deviceLen := fun _ => rfl, decoded := ?_, once := ?_, released := ?_, pass := ?_,
           cut := cut }
  · simp only [SwaReq.completeOne, driven.deviceLen]
    exact decoded
  · refine List.nodup_append.mpr ⟨h.once, driven.once, ?_⟩
    rintro j before _ now rfl
    obtain ⟨-, new, -⟩ := driven.released j now
    have old := h.released j before
    omega
  · intro j mem
    change j < p.req.swaEvictedSeqlen
    rcases List.mem_append.mp mem with before | now
    · have old := h.released j before
      omega
    · exact (driven.released j now).2.2.1
  · simp only [SwaReq.completeOne, driven.deviceLen]
    omega

theorem Kept.step {s s' : SwaRun} {e : SwaEvent} (h : Kept cfg s) (step : SwaStep cfg s e s') : Kept cfg s' := by
  cases step with
  | @extend n r pool open' some fits seated =>
    have tidy : Tidy cfg { s.req with deviceLen := s.req.cachedLen + n } s.pool := { h.tidy with }
    obtain ⟨driven, reach⟩ := tidy.extend
    refine h.launch { s.req with deviceLen := s.req.cachedLen + n } rfl rfl driven (Nat.le_add_right _ _) seated ?_
      (le_refl _) ?_
    · intro idx
      have none : ¬ 1 ≤ s.req.decodeBatchIdx := fun idx => by
        have past := (h.decoded idx).1
        omega
      refine absurd ?_ none
      unfold freeSwaOutOfWindowExtend SwaReq.release at idx
      dsimp only at idx
      split at idx
      case isTrue => exact idx
      case isFalse => exact idx
    · simp only [anchorSlack, Bool.false_eq_true, if_false, Nat.cast_zero, sub_zero]
      exact reach
  | @decode forwardIter r pool past seated =>
    have next := h.deviceLen past
    obtain ⟨driven, -, reach, -⟩ := h.tidy.decode forwardIter next
    refine h.launch _ rfl rfl driven (by omega) seated ?_ ?_ ?_
    · intro _
      refine ⟨by omega, fun q mem => ?_⟩
      rw [List.mem_singleton.mp mem, next]
    · split
      case isTrue => exact le_refl _
      case isFalse => exact h.pass
    · cases looks : looksAt cfg forwardIter s.req with
      | false =>
        simp only [Bool.false_eq_true, if_false]
        have later := driven.later
        have handle := driven.handleLen
        have before := h.cut
        omega
      | true =>
        simp only [if_true]
        refine le_trans ?_ (reach looks)
        have low := (decodeThreshold_le cfg s.req).2
        refine Int.mul_le_mul_of_nonneg_right (Int.ediv_le_ediv (by exact_mod_cast cfg.page_pos) ?_) (by omega)
        omega
  | @commit handleLen row pool past whole same elsewhere =>
    have le : handleLen ≤ s.req.cachedLen := by
      rcases whole with rfl | rfl
      · exact PathTree.alignDown_le _ _
      · exact h.tidy.handle_le
    have grows : s.req.handleLen ≤ handleLen := by
      rcases whole with rfl | rfl
      · exact PathTree.le_alignDown h.tidy.handle_dvd h.tidy.handle_le
      · exact le_refl _
    obtain ⟨sound, kept⟩ := elsewhere.keeps h.tidy.sound
    refine { tidy := ?_, deviceLen := h.deviceLen, decoded := h.decoded, once := h.once,
             released := h.released, pass := ?_, cut := ?_ }
    · refine { sound := sound, handle_dvd := ?_, handle_le := le, evicted_dvd := h.tidy.evicted_dvd,
               evicted_le := h.tidy.evicted_le, live := ?_, distinct := ?_ }
      · rcases whole with rfl | rfl
        · exact PathTree.dvd_alignDown _ _
        · exact h.tidy.handle_dvd
      · intro j own last
        dsimp only at own last ⊢
        rw [same j own, kept _ ⟨j, own, last, rfl⟩]
        exact h.tidy.live j (grows.trans own) last
      · intro j j' own last own' last' equal
        dsimp only at own own' equal
        rw [same j own, same j' own'] at equal
        exact h.tidy.distinct j j' (grows.trans own) last (grows.trans own') last' equal
    · dsimp only
      split
      case isTrue => exact h.pass
      case isFalse => exact le_refl _
    · dsimp only
      split
      case isTrue unmoved =>
        subst unmoved
        exact h.cut
      case isFalse moved =>
        obtain rfl : handleLen = PathTree.alignDown s.req.cachedLen cfg.pageSize :=
          whole.resolve_right moved
        have low := alignDown_le cfg.page_pos
          ((s.req.cachedLen : Int) - cfg.window - anchorSlack cfg false - cfg.pageSize)
        have high := PathTree.lt_alignDown_add cfg.page_pos s.req.cachedLen
        omega
  | anchor free => exact { h with tidy := { h.tidy with } }
  | drain => exact { h with decoded := fun idx => ⟨(h.decoded idx).1, fun _ mem => absurd mem List.not_mem_nil⟩ }
  | @others pool elsewhere =>
    obtain ⟨sound, kept⟩ := elsewhere.keeps h.tidy.sound
    refine { h with tidy := { h.tidy with sound := sound, live := ?_ } }
    intro j own last
    rw [kept _ ⟨j, own, last, rfl⟩]
    exact h.tidy.live j own last

theorem kept_of_reached (reached : SwaReached cfg s) : Kept cfg s := by
  induction reached with
  | @admitted handleLen promptLen row pool whole short sound =>
    have none : ∀ j, handleLen ≤ j → ¬ j < pageCeil cfg.pageSize handleLen := by
      intro j own
      rw [pageCeil_eq_self cfg.page_pos whole]
      omega
    refine { tidy := ?_, deviceLen := ?_, decoded := ?_, once := List.nodup_nil, released := ?_,
             pass := le_refl _, cut := ?_ }
    · exact { sound := sound, handle_dvd := whole, handle_le := le_refl _, evicted_dvd := Nat.dvd_zero _,
              evicted_le := Nat.zero_le _, live := fun j own last => absurd last (none j own),
              distinct := fun j _ own last => absurd last (none j own) }
    · intro past
      dsimp only at past
      omega
    · intro idx
      dsimp only at idx
      omega
    · exact fun j mem => absurd mem List.not_mem_nil
    · have low := alignDown_le cfg.page_pos
        ((handleLen : Int) - cfg.window - anchorSlack cfg false - cfg.pageSize)
      dsimp only
      omega
  | step _ step ih => exact ih.step step

/-! ## What a request holds -/

theorem Kept.held_le (h : Kept cfg s) :
    s.held cfg ≤ pageCeil cfg.pageSize s.req.cachedLen - max s.req.swaEvictedSeqlen s.req.handleLen := by
  have part : (List.range' s.req.handleLen (pageCeil cfg.pageSize s.req.cachedLen - s.req.handleLen)).filter
        (fun j => 0 < s.pool.fullToSwa (s.req.row j)) ⊆
      List.range' (max s.req.swaEvictedSeqlen s.req.handleLen)
        (pageCeil cfg.pageSize s.req.cachedLen - max s.req.swaEvictedSeqlen s.req.handleLen) := by
    intro j mem
    obtain ⟨inside, used⟩ := List.mem_filter.mp mem
    obtain ⟨own, last⟩ := List.mem_range'_1.mp inside
    have left := (h.tidy.live j own (by omega)).mp (of_decide_eq_true used)
    rw [List.mem_range'_1]
    omega
  have length := (((List.nodup_range' 1).filter _).subperm part).length_le
  rwa [List.length_range'] at length

/-- What a request holds is bounded by the tokens that were launched since it was last looked at. -/
theorem Kept.held_bound (h : Kept cfg s) :
    s.held cfg ≤ pageCeil cfg.pageSize
      (cfg.window + anchorSlack cfg s.capped + (s.req.cachedLen - s.passLen) - 1) + 2 * cfg.pageSize := by
  have held := h.held_le
  have pass := h.pass
  have window := cfg.window_pos
  have cut := h.cut
  have width := pageCeil_sub_alignDown_le cfg.page_pos s.req.cachedLen
    (cfg.window + anchorSlack cfg s.capped + (s.req.cachedLen - s.passLen) - 1)
  have same : (s.passLen : Int) - cfg.window - anchorSlack cfg s.capped - cfg.pageSize =
      (s.req.cachedLen : Int) - ((cfg.window + anchorSlack cfg s.capped + (s.req.cachedLen - s.passLen) - 1 : Nat) +
        1) - cfg.pageSize := by
    omega
  rw [same] at cut
  omega

/-- The floor: the part of the prompt that the tree keeps, what is held while it decodes, and what is kept for an
anchor. -/
theorem swaPerReqSwaFloor_eq (pageSize window interval : Nat) (specialTokenCkpt : Bool) :
    HybridSWAKVCache.swaPerReqSwaFloor pageSize window interval specialTokenCkpt =
      pageCeil pageSize (window + HybridSWAKVCache.swaRetainGap) + (window + interval) + 2 * pageSize +
        if specialTokenCkpt then window + HybridSWAKVCache.swaRetainGap + interval else 0 := by
  cases specialTokenCkpt <;>
    simp [HybridSWAKVCache.swaPerReqSwaFloor, pageCeil, divCeil, Nat.add_assoc]

/-- What a request holds while it decodes, with the part of its prompt that the tree keeps for it, is what the
pool was sized for, when its last run of the driver is at most an interval ago and windows and intervals make
whole pages. -/
theorem Kept.held_floor (h : Kept cfg s) {specialTokenCkpt : Bool}
    (anchors : s.capped = true → specialTokenCkpt = true ∧ cfg.pageSize ≤ cfg.interval)
    (recent : s.req.cachedLen - s.passLen ≤ cfg.interval) (whole : cfg.pageSize ∣ cfg.window + cfg.interval) :
    s.held cfg + pageCeil cfg.pageSize (cfg.window + HybridSWAKVCache.swaRetainGap) ≤
      HybridSWAKVCache.swaPerReqSwaFloor cfg.pageSize cfg.window cfg.interval specialTokenCkpt := by
  have held := h.held_bound
  have window := cfg.window_pos
  have plain : pageCeil cfg.pageSize (cfg.window + (s.req.cachedLen - s.passLen) - 1) ≤
      cfg.window + cfg.interval := pageCeil_le cfg.page_pos whole (by omega)
  rw [swaPerReqSwaFloor_eq]
  cases capped : s.capped with
  | false =>
    rw [capped] at held
    simp only [anchorSlack, Bool.false_eq_true, if_false, Nat.add_zero] at held
    omega
  | true =>
    obtain ⟨kept, small⟩ := anchors capped
    rw [capped] at held
    simp only [anchorSlack, if_true] at held
    rw [if_pos kept]
    have top := pageCeil_lt cfg.page_pos (cfg.window + (cfg.window + HybridSWAKVCache.swaRetainGap) +
      (s.req.cachedLen - s.passLen) - 1)
    omega

/-- What a step gives back: own positions, which hold slots and are behind the window of the tokens that are not
launched, and of those that are when the request decodes. -/
theorem Kept.freed {s s' : SwaRun} {e : SwaEvent} (h : Kept cfg s) (step : SwaStep cfg s e s') :
    ∃ freed, s'.released = s.released ++ freed ∧ s.req.swaEvictedSeqlen ≤ s'.req.swaEvictedSeqlen ∧
      ∀ j ∈ freed, s.req.handleLen ≤ j ∧ 0 < s.pool.fullToSwa (s.req.row j) ∧
        (∀ q, s.req.cachedLen ≤ q → j + cfg.window < q) ∧
        (s.promptLen ≤ s.req.cachedLen → ∀ q ∈ s.flight, j + cfg.window < q) := by
  have page := cfg.page_pos
  -- Steps that are not batches give nothing back.
  have quiet : ∀ {r : SwaRun}, r.released = s.released → r.req.swaEvictedSeqlen = s.req.swaEvictedSeqlen →
      ∃ freed, r.released = s.released ++ freed ∧ s.req.swaEvictedSeqlen ≤ r.req.swaEvictedSeqlen ∧
        ∀ j ∈ freed, s.req.handleLen ≤ j ∧ 0 < s.pool.fullToSwa (s.req.row j) ∧
          (∀ q, s.req.cachedLen ≤ q → j + cfg.window < q) ∧
          (s.promptLen ≤ s.req.cachedLen → ∀ q ∈ s.flight, j + cfg.window < q) := by
    intro r same mark
    exact ⟨[], by rw [same, List.append_nil], mark.ge, fun _ mem => absurd mem List.not_mem_nil⟩
  cases step with
  | @extend n r pool short some room seated =>
    have tidy : Tidy cfg { s.req with deviceLen := s.req.cachedLen + n } s.pool := { h.tidy with }
    obtain ⟨driven, -⟩ := tidy.extend
    obtain ⟨-, row, rfl⟩ := driven.tidy.seat
      (by rw [driven.cachedLen, driven.deviceLen]; exact Nat.le_add_right _ _) seated
    have low := alignDown_le page ((s.req.cachedLen : Int) - cfg.window - cfg.pageSize)
    refine ⟨_, rfl, driven.later, fun j mem => ?_⟩
    obtain ⟨own, -, -, below, used⟩ := driven.released j mem
    dsimp only at below
    refine ⟨own, used, fun q ahead => by omega, fun past => by omega⟩
  | @decode forwardIter r pool past seated =>
    have next := h.deviceLen past
    obtain ⟨driven, -, -, idle⟩ := h.tidy.decode forwardIter next
    obtain ⟨-, row, rfl⟩ := driven.tidy.seat (by rw [driven.cachedLen, driven.deviceLen]; omega) seated
    have bound := (decodeThreshold_le cfg s.req).1
    have low := alignDown_le page (decodeThreshold cfg s.req).2
    refine ⟨_, rfl, driven.later, fun j mem => ?_⟩
    obtain ⟨own, -, -, below, used⟩ := driven.released j mem
    refine ⟨own, used, fun q ahead => by omega, fun _ q launched => ?_⟩
    -- A request that the driver looks at has decoded before, so that only its last token can be in flight.
    cases looks : looksAt cfg forwardIter s.req with
    | false => exact absurd (idle looks ▸ mem) List.not_mem_nil
    | true =>
      have idx := of_decide_eq_true (Bool.and_eq_true_iff.mp looks).2
      have last := (h.decoded idx).2 q launched
      omega
  | commit | anchor | drain | others => exact quiet rfl rfl

/-- Along every run, a step gives back own positions only, which hold slots and are behind the window of the tokens
that are not launched, and of those that are when the request decodes. The watermark does not fall and is at a
page, nothing is given back twice, and what the request holds is bounded by what was launched since the driver last
looked; the pool is large enough for it then, as often as requests may run. -/
theorem freed_of_reached {s s' : SwaRun} {e : SwaEvent} (reached : SwaReached cfg s) (step : SwaStep cfg s e s') :
    ∃ freed, s'.released = s.released ++ freed ∧ s'.released.Nodup ∧
      s.req.swaEvictedSeqlen ≤ s'.req.swaEvictedSeqlen ∧ cfg.pageSize ∣ s'.req.swaEvictedSeqlen ∧
      (∀ j ∈ freed, s.req.handleLen ≤ j ∧ 0 < s.pool.fullToSwa (s.req.row j) ∧
        (∀ q, s.req.cachedLen ≤ q → j + cfg.window < q) ∧
        (s.promptLen ≤ s.req.cachedLen → ∀ q ∈ s.flight, j + cfg.window < q)) ∧
      s'.held cfg ≤ pageCeil cfg.pageSize
        (cfg.window + anchorSlack cfg s'.capped + (s'.req.cachedLen - s'.passLen) - 1) + 2 * cfg.pageSize ∧
      ∀ maxRunningReq target specialTokenCkpt,
        (s'.capped = true → specialTokenCkpt = true ∧ cfg.pageSize ≤ cfg.interval) →
        s'.req.cachedLen - s'.passLen ≤ cfg.interval → cfg.pageSize ∣ cfg.window + cfg.interval →
        maxRunningReq * (s'.held cfg + pageCeil cfg.pageSize (cfg.window + HybridSWAKVCache.swaRetainGap)) <
          HybridSWAKVCache.swaPagedNumTokens (HybridSWAKVCache.swaPoolFloor maxRunningReq
            (HybridSWAKVCache.swaPerReqSwaFloor cfg.pageSize cfg.window cfg.interval specialTokenCkpt)) target := by
  have before := kept_of_reached reached
  have after := before.step step
  obtain ⟨freed, log, later, safe⟩ := before.freed step
  refine ⟨freed, log, after.once, later, after.tidy.evicted_dvd, safe, after.held_bound, ?_⟩
  intro maxRunningReq target specialTokenCkpt anchors recent whole
  have all := Nat.mul_le_mul_left maxRunningReq (after.held_floor anchors recent whole)
  exact Nat.lt_succ_of_le (all.trans (Nat.le_max_left _ _))

/-! ## A run -/

def smallConfig : SwaConfig := { pageSize := 1, window := 1, interval := 1, page_pos := by decide,
                                 window_pos := by decide }

/-- A prompt of 24 tokens. -/
def smallAdmitted : SwaRun :=
  { req := { cachedLen := 0, deviceLen := 24, handleLen := 0, swaEvictedSeqlen := 0, decodeBatchIdx := 0,
             toolcallAnchorLen := none, row := fun _ => 0 }
    pool := .initSwaPagedState 64, promptLen := 24, flight := [], released := [], passLen := 0, capped := false }

def smallSlots (first n : Nat) : List Int := (List.range' first n).map fun slot : Nat => (slot : Int)

/-- The next tokens of the prompt in the next full slots. -/
def smallChunk (s : SwaRun) (n : Nat) : SwaRun :=
  let prepared := freeSwaOutOfWindowExtend smallConfig
    { s.req with
      deviceLen := s.req.cachedLen + n } s.pool
  let seated := (prepared.req.allocatePaged smallConfig prepared.pool (smallSlots (s.req.cachedLen + 1) n)).getD
    (prepared.req, prepared.pool)
  { s with
    req := seated.1.completeOne
    pool := seated.2
    flight := List.range' s.req.cachedLen n
    released := s.released ++ prepared.released
    passLen := s.req.cachedLen
    capped := false }

theorem small_reached : SwaReached smallConfig (smallChunk smallAdmitted 22) := by
  refine .step (.admitted (by decide) (by decide) (HybridSWAKVCache.sound_init 64))
    (.extend (n := 22) (by decide) (by decide) (by decide) ?_)
  refine ⟨_, smallSlots 1 22, .refl, by decide, by decide, ?_, rfl⟩
  rintro slot - ⟨j, -, last, -⟩
  exact absurd last (Nat.not_lt_zero j)

theorem small_step :
    SwaStep smallConfig (smallChunk smallAdmitted 22) (.extend 2) (smallChunk (smallChunk smallAdmitted 22) 2) := by
  refine .extend (n := 2) (by decide) (by decide) (by decide) ?_
  refine ⟨_, smallSlots 23 2, .refl, by decide, by decide, ?_, rfl⟩
  have rows : ∀ j < 22, (smallChunk smallAdmitted 22).req.row j ∉ smallSlots 23 2 := by decide
  rintro slot mem ⟨j, -, last, rfl⟩
  exact rows j last mem

/-- A chunk of a prompt holds more slots than the floor, and before the next chunk slots in the window of its tokens
are given back. -/
theorem freed_of_reached_not_floor : ∃ s s' : SwaRun, SwaReached smallConfig s ∧ SwaStep smallConfig s (.extend 2) s' ∧
    HybridSWAKVCache.swaPerReqSwaFloor 1 1 1 false < s.held smallConfig ∧
    ∃ j ∈ s'.released, j ∉ s.released ∧ ∃ q ∈ s.flight, j ≤ q ∧ q < j + smallConfig.window :=
  ⟨_, _, small_reached, small_step, by decide, 19, by decide, by decide, 19, by decide, by decide, by decide⟩

/-- The second chunk gives back the positions that are behind the window of what is to come. -/
theorem freed_of_reached_small : ∃ freed, (smallChunk (smallChunk smallAdmitted 22) 2).released = [] ++ freed ∧
    ∀ j ∈ freed, ∀ q, 22 ≤ q → j + 1 < q := by
  obtain ⟨freed, log, -, -, -, safe, -⟩ := freed_of_reached small_reached small_step
  exact ⟨freed, log, fun j mem q ahead => (safe j mem).2.2.1 q ahead⟩

end FreeSwarm.Scheduler
