import FreeSwarm.KvCache.RadixPrefix
import FreeSwarm.Scheduler.Request

/-!
# The cache manager with the plain prefix cache

Requests are matched, locked and seated in a row; pages are allocated for their forwards, at the cost
of cached prefixes when none are free; what they computed is committed to the prefix cache.
-/

namespace FreeSwarm.Scheduler

open FreeSwarm.Foundation FreeSwarm.KvCache

/-- A request of the plain cache manager. -/
abbrev Req := RunningReq RadixCacheHandle

structure CacheManager where
  pool : PagePool
  prefixCache : RadixPrefixCache

namespace CacheManager

def create (numPages pageSize : Nat) (pageTable : PageTable) : CacheManager :=
  { pool := PagePool.create numPages pageSize pageTable
    prefixCache := RadixPrefixCache.create pageSize }

variable (m : CacheManager) (handle : RadixCacheHandle)

/-- The tokens that are free or can be evicted. -/
def availableSize : Int :=
  m.prefixCache.evictableSize + m.pool.freeSlots.length * m.pool.pageSize

/-- Find the cached prefix of a prompt; its last token is never taken from the cache, and nothing of
a multimodal prompt is. -/
def matchReq (req : PendingReq) (tic : Nat) :
    Option (CacheManager × RadixCacheHandle) :=
  if 0 < req.inputLen then
    let ids := if req.multimodal then [] else req.inputIds.take (req.inputLen - 1)
    let (cache, handle) := m.prefixCache.matchPrefix ids tic
    some ({ m with
      prefixCache := cache }, handle)
  else none

def lock : Option CacheManager :=
  (m.prefixCache.lockHandle handle false).map fun cache => { m with
    prefixCache := cache }

def unlock : Option CacheManager :=
  (m.prefixCache.lockHandle handle true).map fun cache => { m with
    prefixCache := cache }

/-- Write the cached part of a prompt into a row. -/
def seat (tableIdx : Nat) : Option CacheManager :=
  if 0 < handle.cachedLen then
    (m.prefixCache.getMatchedIndices handle).map fun matched =>
      { m with
        pool := { m.pool with
          pageTable := m.pool.pageTable.write tableIdx (handle.cachedLen - matched.length) matched } }
  else some m

/-- Take pages, at the cost of cached prefixes when not enough are free. -/
def allocate (neededPages : Nat) (tie : List RadixTreeNode → Nat) :
    Option (CacheManager × List Int) :=
  let freePages := m.pool.freeSlots.length
  if freePages < neededPages then
    (m.prefixCache.evict ((neededPages - freePages) * m.pool.pageSize) tie).bind
      fun (cache, evicted) =>
        ((m.pool.refill evicted).take neededPages).map fun (pool, pages) =>
          ({ pool := pool, prefixCache := cache }, pages)
  else (m.pool.take neededPages).map fun (pool, pages) => ({ m with
    pool := pool }, pages)

/-- Allocate the pages that requests need for their next forward. -/
def allocatePaged (reqs : List Req) (tie : List RadixTreeNode → Nat) :
    Option CacheManager :=
  let info := PagePool.allocationInfo m.pool.pageSize reqs
  let neededPages := PagePool.neededPages info
  if 0 < neededPages then
    (m.allocate neededPages tie).map fun (m, pages) => { m with
      pool := m.pool.writePageTable pages info }
  else some m

/-- Give slots of whole pages back. -/
def free (indices : List Int) : CacheManager := { m with
  pool := m.pool.free indices }

/-- Name the tree's slots in the row where the request's own were given back. -/
def repoint (req : Req) (cachedLen : Nat) (handle : RadixCacheHandle) :
    Option CacheManager :=
  let oldLen := req.cacheHandle.cachedLen
  if oldLen < cachedLen then
    (m.prefixCache.getMatchedIndices handle).map fun canonical =>
      { m with
        pool := { m.pool with
          pageTable := m.pool.pageTable.write req.tableIdx oldLen
            ((canonical.take cachedLen).drop oldLen) } }
  else some m

/-- Commit what a request computed to the prefix cache; a request that has finished gives back
everything else, one that runs on locks the new prefix. -/
def cacheReq (req : Req) (finished : Bool) (tic now : Nat) :
    Option (CacheManager × Req) :=
  let pageIndices := m.pool.pageTable.row req.tableIdx 0 req.cachedLen
  let oldHandle := req.cacheHandle
  if req.multimodal then
    (m.unlock oldHandle).map fun m =>
      (if finished then m.free (m.pool.paddedTail req oldHandle.cachedLen) else m, req)
  else
    (m.prefixCache.insertPrefix (req.inputIds.take req.cachedLen) pageIndices tic now).bind
      fun (cache, cachedLen, newHandle) =>
        (unlock { m with prefixCache := cache } oldHandle).bind fun m =>
          let m := m.free ((pageIndices.take cachedLen).drop oldHandle.cachedLen)
          if finished then some (m.free (m.pool.paddedTail req newHandle.cachedLen), req)
          else
            (m.repoint req cachedLen newHandle).bind fun m =>
              (m.lock newHandle).map fun m => (m, { req with
                cacheHandle := newHandle })

/-- The idle check: free pages and cached pages are all pages. -/
def checkIntegrity : Prop :=
  (m.pool.freeSlots.length : Int) +
    (m.prefixCache.evictableSize + m.prefixCache.protectedSize) / m.pool.pageSize =
    m.pool.numPages ∧
  (1 < m.pool.pageSize → ∀ slot ∈ m.pool.freeSlots, (m.pool.pageSize : Int) ∣ slot)

end CacheManager

end FreeSwarm.Scheduler
