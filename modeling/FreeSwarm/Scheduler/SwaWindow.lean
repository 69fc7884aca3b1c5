import Mathlib.Algebra.Order.Ring.Int
import FreeSwarm.Foundation.PathTreeWalk
import FreeSwarm.KvCache.SwaPool

/-!
# Freeing what is out of the window

A request of a model with window layers gives its window slots back as its tokens slide out of the window: before
each chunk of its prompt, and while it decodes whenever the driver runs. What it has computed is committed to the
tree, which then owns the slots. Others use the pool as well, but not the slots of the request.
-/

namespace FreeSwarm.Scheduler

open FreeSwarm.Foundation FreeSwarm.KvCache

/-- The sizes that the window driver works with. -/
structure SwaConfig where
  pageSize : Nat
  window : Nat
  /-- `_SWA_EVICTION_INTERVAL`: how many forwards there are between two runs of the driver. -/
  interval : Nat
  page_pos : 0 < pageSize
  window_pos : 0 < window

/-- The part of a request that the driver reads. -/
structure SwaReq where
  cachedLen : Nat
  deviceLen : Nat
  /-- `cache_handle.cached_len`: the prefix that the tree owns. -/
  handleLen : Nat
  swaEvictedSeqlen : Nat
  decodeBatchIdx : Nat
  toolcallAnchorLen : Option Nat
  row : Nat → Int

/-- `align_down`: the largest multiple of a page that is not above a number, which may be negative. -/
def alignDown (n : Int) (page : Nat) : Int := n / page * page

/-- A request before its slots are allocated: what it and the pool have become, and what was released. -/
structure Prepared where
  req : SwaReq
  pool : HybridSWAKVCache
  released : List Nat

/-- Release the positions between those released before, or owned by the tree, and a new bound. -/
def SwaReq.release (r : SwaReq) (pool : HybridSWAKVCache) (newEvicted : Int) : Prepared :=
  let start := max r.swaEvictedSeqlen r.handleLen
  if (start : Int) < newEvicted then
    let span := List.range' start (newEvicted.toNat - start)
    { req := { r with
        swaEvictedSeqlen := newEvicted.toNat }
      pool := pool.freeSwa (span.map r.row)
      released := span }
  else { req := r, pool := pool, released := [] }

variable (cfg : SwaConfig)

variable (forwardIter : Nat) (r : SwaReq) (pool : HybridSWAKVCache)

/-- `free_swa_out_of_window_extend`, for one request of the batch. -/
def freeSwaOutOfWindowExtend : Prepared :=
  r.release pool (alignDown ((r.cachedLen : Int) - cfg.window - cfg.pageSize) cfg.pageSize)

/-- The bound before which a decoding request may release. An anchor holds it back, but not by more than a window
and the gap: then the anchor is dropped. -/
def decodeThreshold : SwaReq × Int :=
  let threshold := (r.deviceLen : Int) - 1 - cfg.window - cfg.pageSize
  match r.toolcallAnchorLen with
  | none => (r, threshold)
  | some anchor =>
    let cap := (anchor : Int) - cfg.window - HybridSWAKVCache.swaRetainGap
    if (cfg.window : Int) + HybridSWAKVCache.swaRetainGap < threshold - cap then
      ({ r with
        toolcallAnchorLen := none }, threshold)
    else (r, min threshold cap)

/-- The driver looks at a request: it is its turn, and the first forward of one token has been launched. -/
def looksAt : Bool :=
  decide (forwardIter % cfg.interval = 0) && decide (1 ≤ r.decodeBatchIdx)

/-- `maybe_free_swa_out_of_window`, for one request of the batch. -/
def maybeFreeSwaOutOfWindow : Prepared :=
  if looksAt cfg forwardIter r then
    (decodeThreshold cfg r).1.release pool (alignDown (decodeThreshold cfg r).2 cfg.pageSize)
  else { req := r, pool := pool, released := [] }

/-- `_prepare_batch` up to the allocation, for one request of a decode batch. -/
def prepareDecode : Prepared :=
  let prepared := maybeFreeSwaOutOfWindow cfg forwardIter r pool
  { prepared with
    req := { prepared.req with
      decodeBatchIdx := prepared.req.decodeBatchIdx + 1 } }

namespace SwaReq

/-- The full slots of the request's own positions: those behind the prefix of the tree, up to the end of the last
page. -/
def Own (r : SwaReq) (slot : Int) : Prop :=
  ∃ j, r.handleLen ≤ j ∧ j < pageCeil cfg.pageSize r.cachedLen ∧ r.row j = slot

/-- `allocate_paged`, for one request: window slots for the new full slots, which are written into the row. -/
def allocatePaged (r : SwaReq) (pool : HybridSWAKVCache) (allocated : List Int) :
    Option (SwaReq × HybridSWAKVCache) :=
  let first := pageCeil cfg.pageSize r.cachedLen
  (pool.allocSwa allocated).map fun pool =>
    ({ r with
      row := fun j => if first ≤ j ∧ j < first + allocated.length then allocated.getD (j - first) 0 else r.row j },
      pool)

/-- The forward is launched. -/
def completeOne (r : SwaReq) : SwaReq :=
  { r with
    cachedLen := r.deviceLen
    deviceLen := r.deviceLen + 1 }

end SwaReq

/-- A request gets its slots: others may evict from the tree meanwhile, and the new full slots are none of its
own. -/
def Seated (p : Prepared) (r : SwaReq) (pool : HybridSWAKVCache) : Prop :=
  ∃ evicted allocated, HybridSWAKVCache.Elsewhere (p.req.Own cfg) p.pool evicted ∧
    allocated.length = pageCeil cfg.pageSize p.req.deviceLen - pageCeil cfg.pageSize p.req.cachedLen ∧
    allocated.Nodup ∧ (∀ slot ∈ allocated, ¬ p.req.Own cfg slot) ∧
    p.req.allocatePaged cfg evicted allocated = some (r, pool)

/-- A request on its way. -/
structure SwaRun where
  req : SwaReq
  pool : HybridSWAKVCache
  promptLen : Nat
  flight : List Nat
  released : List Nat
  passLen : Nat
  capped : Bool

/-- How many of the request's own positions hold a window slot. -/
def SwaRun.held (s : SwaRun) : Nat :=
  ((List.range' s.req.handleLen (pageCeil cfg.pageSize s.req.cachedLen - s.req.handleLen)).filter fun j =>
    0 < s.pool.fullToSwa (s.req.row j)).length

/-- What can happen. -/
inductive SwaEvent where
  | extend (tokens : Nat)
  | decode (forwardIter : Nat)
  | commit
  | anchor (len : Nat)
  | drain
  | others
  deriving DecidableEq, Repr

inductive SwaStep : SwaRun → SwaEvent → SwaRun → Prop where
  | extend {s : SwaRun} {n : Nat} {r : SwaReq} {pool : HybridSWAKVCache} : s.req.cachedLen < s.promptLen →
    0 < n → s.req.cachedLen + n ≤ s.promptLen →
    Seated cfg (freeSwaOutOfWindowExtend cfg
      { s.req with
        deviceLen := s.req.cachedLen + n } s.pool) r pool →
    SwaStep s (.extend n)
      { s with
        req := r.completeOne
        pool := pool
        flight := List.range' s.req.cachedLen n
        released := s.released ++ (freeSwaOutOfWindowExtend cfg
          { s.req with
            deviceLen := s.req.cachedLen + n } s.pool).released
        passLen := s.req.cachedLen
        capped := false }
  | decode {s : SwaRun} {forwardIter : Nat} {r : SwaReq} {pool : HybridSWAKVCache} :
    s.promptLen ≤ s.req.cachedLen → Seated cfg (prepareDecode cfg forwardIter s.req s.pool) r pool →
    SwaStep s (.decode forwardIter)
      { s with
        req := r.completeOne
        pool := pool
        flight := [s.req.cachedLen]
        released := s.released ++ (prepareDecode cfg forwardIter s.req s.pool).released
        passLen := if looksAt cfg forwardIter s.req then s.req.cachedLen else s.passLen
        capped := if looksAt cfg forwardIter s.req then (decodeThreshold cfg s.req).1.toolcallAnchorLen.isSome
          else s.capped }
  /-- The prompt is committed: the tree owns its whole pages, and the row names the slots of the tree there. A
  prompt with embeddings of its own is not committed, and its handle stays. -/
  | commit {s : SwaRun} {handleLen : Nat} {row : Nat → Int} {pool : HybridSWAKVCache} :
    s.promptLen ≤ s.req.cachedLen →
    handleLen = PathTree.alignDown s.req.cachedLen cfg.pageSize ∨ handleLen = s.req.handleLen →
    (∀ j, handleLen ≤ j → row j = s.req.row j) →
    HybridSWAKVCache.Elsewhere (({ s.req with
      handleLen := handleLen } : SwaReq).Own cfg) s.pool pool →
    SwaStep s .commit
      { s with
        req := { s.req with
          handleLen := handleLen
          row := row }
        pool := pool
        passLen := if handleLen = s.req.handleLen then s.passLen else s.req.cachedLen
        capped := if handleLen = s.req.handleLen then s.capped else false }
  | anchor {s : SwaRun} {len : Nat} : s.req.toolcallAnchorLen = none →
    SwaStep s (.anchor len)
      { s with
        req := { s.req with
          toolcallAnchorLen := some len } }
  | drain {s : SwaRun} :
    SwaStep s .drain
      { s with
        flight := [] }
  | others {s : SwaRun} {pool : HybridSWAKVCache} :
    HybridSWAKVCache.Elsewhere (s.req.Own cfg) s.pool pool →
    SwaStep s .others
      { s with
        pool := pool }

/-- The states of a request that was admitted with a cached prefix of whole pages. -/
inductive SwaReached : SwaRun → Prop where
  | admitted {handleLen promptLen : Nat} {row : Nat → Int} {pool : HybridSWAKVCache} :
    cfg.pageSize ∣ handleLen → handleLen < promptLen → pool.Sound →
    SwaReached
      { req := { cachedLen := handleLen, deviceLen := promptLen, handleLen := handleLen, swaEvictedSeqlen := 0,
                 decodeBatchIdx := 0, toolcallAnchorLen := none, row := row }
        pool := pool, promptLen := promptLen, flight := [], released := [], passLen := handleLen
        capped := false }
  | step {s s' : SwaRun} {e : SwaEvent} : SwaReached s → SwaStep cfg s e s' → SwaReached s'

end FreeSwarm.Scheduler
