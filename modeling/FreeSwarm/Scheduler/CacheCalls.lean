import FreeSwarm.Scheduler.CacheManager
import FreeSwarm.Scheduler.PageOwners

/-!
# The calls of the cache manager

What each call does to the owners of the pages, the locks and the tree. `Core` holds between any two
steps of a call; some pages may be on their way from one owner to the next.
-/

namespace FreeSwarm.Scheduler

open FreeSwarm.Foundation FreeSwarm.Foundation.PathTree FreeSwarm.KvCache
open FreeSwarm.KvCache.RadixPrefixCache

namespace CacheManager

/-- The tokens of the pages that requests need for their next forward. -/
def neededTokens (page : Nat) (reqs : List Req) : Nat :=
  PagePool.neededPages (PagePool.allocationInfo page reqs) * page

/-- The manager is consistent, with these nodes locked, these pages on their way and these spans of
rows owned by requests. -/
structure Core (numPages page : Nat) (m : CacheManager) (locked : List Nat) (loose : List Int)
    (spans : List Span) (path : Nat → List Nat) : Prop where
  numPages : m.pool.numPages = numPages
  pageSize : m.pool.pageSize = page
  cachePageSize : m.prefixCache.pageSize = page
  accounted : m.prefixCache.sized.Accounted page path locked
  paged : Paged page m.prefixCache.tree.slots
  owned : m.pool.Owned (loose ++ stride page m.prefixCache.tree.slots) spans

namespace Core

variable {numPages page : Nat} {m : CacheManager} {locked : List Nat} {loose : List Int}
  {spans : List Span} {path : Nat → List Nat}

theorem positive (h : Core numPages page m locked loose spans path) : 0 < page :=
  h.pageSize ▸ h.owned.positive

theorem setCache (h : Core numPages page m locked loose spans path) {cache : RadixPrefixCache}
    {locked' : List Nat} {path' : Nat → List Nat} (pageSize : cache.pageSize = page)
    (accounted : cache.sized.Accounted page path' locked')
    (slots : cache.tree.slots = m.prefixCache.tree.slots) :
    Core numPages page { m with prefixCache := cache } locked' loose spans path' :=
  { numPages := h.numPages, pageSize := h.pageSize, cachePageSize := pageSize,
    accounted := accounted
    paged := by
      change Paged page cache.tree.slots
      rw [slots]
      exact h.paged
    owned := by
      change m.pool.Owned (loose ++ stride page cache.tree.slots) spans
      rw [slots]
      exact h.owned }

theorem setPool (h : Core numPages page m locked loose spans path) {pool : PagePool}
    {loose' : List Int} {spans' : List Span} (numPages_eq : pool.numPages = m.pool.numPages)
    (pageSize_eq : pool.pageSize = m.pool.pageSize)
    (owned : pool.Owned (loose' ++ stride page m.prefixCache.tree.slots) spans') :
    Core numPages page { m with pool := pool } locked loose' spans' path :=
  { h with
    numPages := numPages_eq.trans h.numPages
    pageSize := pageSize_eq.trans h.pageSize
    owned := owned }

/-! ## Matching and locking -/

theorem matchPrefix (h : Core numPages page m locked loose spans path) (ids : List Nat)
    (tic : Nat) :
    ∃ path', Core numPages page { m with prefixCache := (m.prefixCache.matchPrefix ids tic).1 }
        locked loose spans path' ∧
      RadixTree.Arrived page m.prefixCache.tree path ids
        (m.prefixCache.matchPrefix ids tic).1.tree path'
        (m.prefixCache.matchPrefix ids tic).2.node
        (m.prefixCache.matchPrefix ids tic).2.cachedLen := by
  have accounted := h.accounted
  rw [← h.cachePageSize] at accounted
  obtain ⟨path', pageSize, accounted', arrived⟩ := matchPrefix_spec accounted ids tic
  rw [h.cachePageSize] at accounted' arrived
  exact ⟨path', h.setCache (pageSize.trans h.cachePageSize) accounted'
    (arrived.refined.slots_eq h.accounted.ok), arrived⟩

theorem lock (h : Core numPages page m locked loose spans path) {handle : RadixCacheHandle}
    (live : Live m.prefixCache.tree.nodes handle.node) :
    ∃ m', m.lock handle = some m' ∧ m'.pool = m.pool ∧
      Core numPages page m' (handle.node :: locked) loose spans path ∧
      RadixTree.SameShape m.prefixCache.tree m'.prefixCache.tree := by
  have accounted := h.accounted
  rw [← h.cachePageSize] at accounted
  obtain ⟨cache, done, pageSize, accounted', shape⟩ := lock_spec accounted live
  rw [h.cachePageSize] at accounted'
  refine ⟨{ m with prefixCache := cache }, ?_, rfl,
    h.setCache (pageSize.trans h.cachePageSize) accounted' shape.slots, shape⟩
  rw [CacheManager.lock, done, Option.map_some]

theorem unlock (h : Core numPages page m locked loose spans path) {handle : RadixCacheHandle}
    (mem : handle.node ∈ locked) :
    ∃ m', m.unlock handle = some m' ∧ m'.pool = m.pool ∧
      Core numPages page m' (locked.erase handle.node) loose spans path ∧
      RadixTree.SameShape m.prefixCache.tree m'.prefixCache.tree := by
  have accounted := h.accounted
  rw [← h.cachePageSize] at accounted
  obtain ⟨cache, done, pageSize, accounted', shape⟩ := unlock_spec accounted mem
  rw [h.cachePageSize] at accounted'
  refine ⟨{ m with prefixCache := cache }, ?_, rfl,
    h.setCache (pageSize.trans h.cachePageSize) accounted' shape.slots, shape⟩
  rw [CacheManager.unlock, done, Option.map_some]

theorem getMatchedIndices (h : Core numPages page m locked loose spans path)
    {handle : RadixCacheHandle} (nonempty : path handle.node ≠ []) :
    ∃ slots, m.prefixCache.getMatchedIndices handle = some slots := by
  have inner : handle.node ≠ 0 := by
    intro root
    exact nonempty (by rw [root]; exact h.accounted.ok.shaped.root)
  exact ⟨_, if_neg inner⟩

/-! ## Moving pages -/

theorem write (h : Core numPages page m locked loose spans path) {idx start : Nat}
    {slots : List Int} (out : ∀ s ∈ spans, s.idx = idx → start + slots.length ≤ s.start) :
    Core numPages page { m with
      pool := { m.pool with
        pageTable := m.pool.pageTable.write idx start slots } } locked loose spans path :=
  h.setPool rfl rfl (h.owned.write out)

theorem free (h : Core numPages page m locked loose spans path) {indices : List Int}
    {loose' : List Int} (same : loose = stride page indices ++ loose') :
    Core numPages page (m.free indices) locked loose' spans path := by
  obtain ⟨pageSize, numPages_eq⟩ : (m.pool.free indices).pageSize = m.pool.pageSize ∧
      (m.pool.free indices).numPages = m.pool.numPages := by
    unfold PagePool.free
    split <;> exact ⟨rfl, rfl⟩
  refine h.setPool numPages_eq pageSize (PagePool.Owned.free ?_)
  have owned := h.owned
  rw [same, List.append_assoc, ← h.pageSize] at owned
  exact h.pageSize ▸ owned

theorem release {s : Span} (h : Core numPages page m locked loose (s :: spans) path) {mid : Nat}
    (whole : page ∣ mid) (first : s.start ≤ mid) (second : mid ≤ s.stop) :
    Paged page (m.pool.pageTable.row s.idx s.start mid) ∧
    Core numPages page m locked (stride page (m.pool.pageTable.row s.idx s.start mid) ++ loose)
      ({ s with start := mid } :: spans) path := by
  obtain ⟨paged, owned⟩ := h.owned.release (h.pageSize.symm ▸ whole) first second
  rw [h.pageSize] at paged owned
  exact ⟨paged, h.setPool rfl rfl (by rw [List.append_assoc]; exact owned)⟩

theorem releaseAll {s : Span} (h : Core numPages page m locked loose (s :: spans) path) :
    Core numPages page m locked
      (stride page (m.pool.pageTable.row s.idx s.start s.stop) ++ loose) spans path := by
  have here := h.owned.aligned s List.mem_cons_self
  obtain ⟨-, released⟩ := h.release (h.pageSize ▸ here.stop) here.ordered le_rfl
  exact released.setPool rfl rfl (released.owned.leave rfl)

/-- A new leaf of the tree takes the slots of a part of a span; what was cached before is on its
way. -/
theorem insertPrefix {s : Span} (h : Core numPages page m locked [] (s :: spans) path)
    {ids : List Nat} {stop : Nat} (tic now : Nat) (length : ids.length = stop)
    (inside : alignDown stop page ≤ s.stop)
    (reaches : ∃ u, Live m.prefixCache.tree.nodes u ∧ path u <+: ids ∧
      (path u).length = s.start) :
    ∃ cache path' prefixLen handle,
      m.prefixCache.insertPrefix ids (m.pool.pageTable.row s.idx 0 stop) tic now =
        some (cache, prefixLen, handle) ∧
      s.start ≤ prefixLen ∧ prefixLen ≤ alignDown stop page ∧
      handle.cachedLen = alignDown stop page ∧ Live cache.tree.nodes handle.node ∧
      path' handle.node = ids.take (alignDown stop page) ∧
      (∀ u, Live m.prefixCache.tree.nodes u → Live cache.tree.nodes u ∧ path' u = path u) ∧
      cache.protectedSize = m.prefixCache.protectedSize ∧
      Core numPages page { m with prefixCache := cache } locked
        (stride page (m.pool.pageTable.row s.idx s.start prefixLen))
        ({ s with start := alignDown stop page } :: spans) path' := by
  subst length
  have accounted := h.accounted
  rw [← h.cachePageSize] at accounted
  obtain ⟨cache, path', prefixLen, handle, done, out⟩ :=
    @insertPrefix_spec m.prefixCache path locked accounted ids
      (m.pool.pageTable.row s.idx 0 ids.length) tic now
      (fun _ => by rw [PageTable.length_row, Nat.sub_zero]; exact alignDown_le _ _)
  obtain ⟨pageSize, accounted', kept, cachedLen, live, along, short, whole, longest, held,
    slots⟩ := out
  rw [h.cachePageSize] at pageSize accounted' cachedLen along short whole longest slots
  have start : s.start ≤ prefixLen := by
    obtain ⟨u, here, start, same⟩ := reaches
    rw [← same]
    have below := le_alignDown (h.accounted.ok.shaped.dvd_length_path here) start.length_le
    refine longest u here (List.prefix_of_prefix_length_le start (List.take_prefix _ _) ?_)
    rw [List.length_take, Nat.min_eq_left (alignDown_le _ _)]
    exact below
  rw [PageTable.slice_row (alignDown_le _ _)] at slots
  refine ⟨cache, path', prefixLen, handle, done, start, short, cachedLen, live, along, kept,
    held, ?_⟩
  obtain ⟨dup, first⟩ := h.release whole start (short.trans inside)
  obtain ⟨new, second⟩ := first.release (s := { s with start := prefixLen }) (dvd_alignDown _ _)
    short inside
  have joined : stride page cache.tree.slots = stride page m.prefixCache.tree.slots ++
      stride page (m.pool.pageTable.row s.idx prefixLen (alignDown ids.length page)) := by
    rw [slots, h.paged.stride_append new h.positive]
  refine { numPages := h.numPages, pageSize := h.pageSize, cachePageSize := pageSize,
           accounted := accounted', paged := ?_, owned := ?_ }
  · change Paged page cache.tree.slots
    rw [slots]
    exact h.paged.append new
  · change m.pool.Owned (_ ++ stride page cache.tree.slots) _
    rw [joined]
    refine second.owned.perm (List.perm_iff_count.mpr fun a => ?_)
    simp only [List.count_append, List.append_nil]
    omega

/-! ## Allocation -/

theorem paged_node (h : Core numPages page m locked loose spans path) :
    ∀ n ∈ m.prefixCache.tree.nodes, Paged page n.data.value :=
  h.paged.of_flatMap fun n mem => by
    rw [h.accounted.ok.values n mem]
    exact h.accounted.ok.shaped.aligned n mem

variable {tie : List RadixTreeNode → Nat}

/-- Taking pages, with an eviction when not enough are free, puts them on their way. -/
theorem allocate (h : Core numPages page m locked [] spans path) {neededPages : Nat}
    {m' : CacheManager} {pages : List Int}
    (done : m.allocate neededPages tie = some (m', pages)) :
    Core numPages page m' locked pages spans path ∧ pages.length = neededPages := by
  rw [CacheManager.allocate] at done
  simp only at done
  split at done
  · obtain ⟨⟨cache, evicted⟩, first, rest⟩ := Option.bind_eq_some_iff.mp done
    obtain ⟨⟨pool, pages'⟩, taken, same⟩ := Option.map_eq_some_iff.mp rest
    obtain ⟨rfl, rfl⟩ : _ = m' ∧ pages' = pages := by simpa using same
    have accounted := h.accounted
    rw [← h.cachePageSize] at accounted
    have enough := size_le_of_evict first accounted.balanced.sizes_nonneg.1
    obtain ⟨cache', gone, done', out, -⟩ := evict_spec tie accounted enough
    obtain ⟨rfl, rfl⟩ : cache' = cache ∧ _ = evicted := by simpa using done'.symm.trans first
    have each := h.paged_node
    have gone_paged := Paged.flatMap h.positive fun n mem =>
      each n (out.perm.mem_iff.mpr (List.mem_append_left _ mem))
    have kept_paged := Paged.flatMap h.positive fun n mem =>
      each n (out.perm.mem_iff.mpr (List.mem_append_right _ mem))
    have split : (stride page m.prefixCache.tree.slots).Perm
        (stride page (gone.flatMap fun n => n.data.value) ++ stride page cache'.tree.slots) := by
      rw [RadixTree.slots, RadixTree.slots, (Paged.flatMap h.positive each).2, gone_paged.2,
        kept_paged.2, ← List.flatMap_append]
      exact out.perm.flatMap_right _
    have refilled : (m.pool.refill (gone.flatMap fun n => n.data.value)).Owned
        (stride page cache'.tree.slots) spans := by
      have owned := h.owned.perm split
      rw [← h.pageSize] at owned
      exact h.pageSize ▸ owned.refill
    obtain ⟨owned, length, rfl⟩ := refilled.take taken
    exact ⟨{ numPages := h.numPages, pageSize := h.pageSize
             cachePageSize := out.pageSize.trans h.cachePageSize
             accounted := h.cachePageSize ▸ out.pageSize ▸ out.accounted
             paged := kept_paged.1, owned := owned }, length⟩
  · obtain ⟨⟨pool, pages'⟩, taken, same⟩ := Option.map_eq_some_iff.mp done
    obtain ⟨rfl, rfl⟩ : _ = m' ∧ pages' = pages := by simpa using same
    obtain ⟨owned, length, rfl⟩ := h.owned.take taken
    exact ⟨h.setPool rfl rfl owned, length⟩

theorem allocatePaged (start : Req → Nat) {reqs : List Req}
    (ordered : ∀ r ∈ reqs, r.cachedLen ≤ r.deviceLen)
    (h : Core numPages page m locked [] (reqs.map (fun r =>
      { idx := r.tableIdx, start := start r, stop := pageCeil page r.cachedLen }) ++ spans) path)
    {m' : CacheManager}
    (done : m.allocatePaged reqs tie = some m') :
    Core numPages page m' locked [] (reqs.map (fun r =>
      { idx := r.tableIdx, start := start r, stop := pageCeil page r.deviceLen }) ++ spans)
      path := by
  rw [CacheManager.allocatePaged] at done
  simp only [h.pageSize] at done
  have write : ∀ {m₁ : CacheManager} {pages : List Int},
      Core numPages page m₁ locked pages (reqs.map (fun r =>
        { idx := r.tableIdx, start := start r, stop := pageCeil page r.cachedLen }) ++ spans) path →
      pages.length = PagePool.neededPages (PagePool.allocationInfo page reqs) →
      Core numPages page
        { m₁ with pool := m₁.pool.writePageTable pages (PagePool.allocationInfo page reqs) } locked []
        (reqs.map (fun r =>
          { idx := r.tableIdx, start := start r, stop := pageCeil page r.deviceLen }) ++ spans)
        path := by
    intro m₁ pages h₁ length
    have owned := h₁.owned
    rw [← h₁.pageSize] at owned length
    have written := owned.writePageTable start ordered length
    rw [h₁.pageSize] at written
    exact h₁.setPool rfl rfl written
  split at done
  · obtain ⟨⟨m₁, pages⟩, allocated, rfl⟩ := Option.map_eq_some_iff.mp done
    obtain ⟨h₁, length⟩ := h.allocate allocated
    exact write h₁ length
  · rename_i nothing
    cases done
    have zero : PagePool.neededPages (PagePool.allocationInfo page reqs) = 0 := by omega
    have written := @write m [] h zero.symm
    rw [PagePool.allocationInfo_eq_nil zero] at written
    exact written

/-! ## The available size -/

theorem total_free {nodes : List RadixTreeNode} (free : ∀ n ∈ nodes, n.data.refCount = 0) :
    total freeWeight nodes = ((nodes.map fun n => n.key.length).sum : Nat) := by
  induction nodes with
  | nil => rfl
  | cons n nodes ih =>
    rw [total_cons, ih fun x mem => free x (List.mem_cons_of_mem _ mem), freeWeight,
      if_pos (free n List.mem_cons_self), List.map_cons, List.sum_cons, Int.natCast_add]

/-- What is evicted leaves the evictable size. -/
theorem evict (h : Core numPages page m locked loose spans path) {size : Nat}
    (enough : (size : Int) ≤ m.prefixCache.evictableSize) :
    ∃ cache evicted, m.prefixCache.evict size tie = some (cache, evicted) ∧
      size ≤ evicted.length ∧ evicted.length = (stride page evicted).length * page ∧
      m.prefixCache.evictableSize = evicted.length + cache.evictableSize := by
  have accounted := h.accounted
  rw [← h.cachePageSize] at accounted
  obtain ⟨cache, gone, done, out, freed⟩ := evict_spec tie accounted enough
  have inside : ∀ n ∈ gone, n ∈ m.prefixCache.tree.nodes := fun n mem =>
    out.perm.mem_iff.mpr (List.mem_append_left _ mem)
  have split : total freeWeight m.prefixCache.tree.nodes =
      total freeWeight gone + total freeWeight cache.tree.nodes :=
    ((out.perm.map freeWeight).sum_eq).trans (total_append gone cache.tree.nodes)
  refine ⟨cache, _, done, freed, ?_, ?_⟩
  · exact (Paged.flatMap h.positive fun n mem => h.paged_node n (inside n mem)).1.length_eq h.positive
  · rw [length_values fun n mem => accounted.ok.values n (inside n mem), ← total_free out.free]
    exact accounted.balanced.evictable.trans
      (split.trans (congrArg _ out.accounted.balanced.evictable.symm))

/-- Taking pages succeeds when they are available, and makes so many unavailable. -/
theorem allocate_available (h : Core numPages page m locked loose spans path) (neededPages : Nat) :
    (((neededPages * page : Nat) : Int) ≤ m.availableSize →
      ∃ m' pages, m.allocate neededPages tie = some (m', pages) ∧
        m.availableSize = (neededPages * page : Nat) + m'.availableSize) ∧
    (m.availableSize < (neededPages * page : Nat) → m.allocate neededPages tie = none) := by
  have nonneg : 0 ≤ m.prefixCache.evictableSize := h.accounted.balanced.sizes_nonneg.1
  rw [availableSize, CacheManager.allocate, h.pageSize, ← Int.natCast_mul]
  simp only
  split
  · rename_i short
    have split : neededPages * page = (neededPages - m.pool.freeSlots.length) * page +
        m.pool.freeSlots.length * page := by
      rw [← Nat.add_mul, Nat.sub_add_cancel short.le]
    refine ⟨fun available => ?_, fun less => ?_⟩
    · have enough : (((neededPages - m.pool.freeSlots.length) * page : Nat) : Int) ≤
          m.prefixCache.evictableSize := by omega
      obtain ⟨cache, evicted, done, freed, pages, sizes⟩ := @evict _ _ _ _ _ _ _ tie h _ enough
      rw [pages] at freed
      have more := Nat.le_of_mul_le_mul_right freed h.positive
      set pool := m.pool.refill evicted with hpool
      have refilled : pool.freeSlots.length =
          m.pool.freeSlots.length + (stride page evicted).length := by
        rw [hpool, PagePool.refill, List.length_append, h.pageSize]
      have taken : pool.take neededPages = some (_, _) := if_pos (by omega)
      have left : (pool.freeSlots.length - neededPages) * page + neededPages * page =
          m.pool.freeSlots.length * page + evicted.length := by
        rw [← Nat.add_mul, Nat.sub_add_cancel (by omega), refilled, Nat.add_mul, pages]
      refine ⟨_, _, by rw [done, Option.bind_some, taken, Option.map_some], ?_⟩
      change _ = _ + (cache.evictableSize + (List.length (List.drop _ _) : Int) * (m.pool.pageSize : Int))
      rw [List.length_drop, h.pageSize, ← Int.natCast_mul]
      omega
    · cases done : m.prefixCache.evict _ tie with
      | none => rfl
      | some r => exact absurd (size_le_of_evict done nonneg) (by omega)
  · rename_i enough
    have split : m.pool.freeSlots.length * page = (m.pool.freeSlots.length - neededPages) * page +
        neededPages * page := by
      rw [← Nat.add_mul, Nat.sub_add_cancel (not_lt.mp enough)]
    refine ⟨fun _ => ?_, fun less => by omega⟩
    rw [PagePool.take, if_pos (not_lt.mp enough)]
    refine ⟨_, _, rfl, ?_⟩
    simp only [availableSize, List.length_drop, h.pageSize]
    push_cast
    omega

theorem allocatePaged_available (h : Core numPages page m locked loose spans path) (reqs : List Req) :
    ((neededTokens page reqs : Int) ≤ m.availableSize → ∃ m', m.allocatePaged reqs tie = some m' ∧
      m.availableSize = neededTokens page reqs + m'.availableSize) ∧
    (m.availableSize < neededTokens page reqs → m.allocatePaged reqs tie = none) := by
  obtain ⟨succeeds, fails⟩ := @allocate_available _ _ _ _ _ _ _ tie h
    (PagePool.neededPages (PagePool.allocationInfo page reqs))
  rw [CacheManager.allocatePaged, h.pageSize, neededTokens]
  simp only
  split
  · refine ⟨fun available => ?_, fun less => by rw [fails less, Option.map_none]⟩
    obtain ⟨m₁, pages, allocated, sizes⟩ := succeeds available
    exact ⟨_, congrArg (Option.map _) allocated, sizes⟩
  · rename_i nothing
    have nonneg : 0 ≤ m.availableSize :=
      Int.add_nonneg h.accounted.balanced.sizes_nonneg.1 (Int.natCast_nonneg (_ * _))
    rw [Nat.eq_zero_of_not_pos nothing, Nat.zero_mul]
    exact ⟨fun _ => ⟨m, rfl, (Int.zero_add _).symm⟩, fun less => absurd less (by omega)⟩

/-- When nothing is locked and no row owns a page, every page is available. -/
theorem idle_available (h : Core numPages page m [] [] [] path) (region : m.pool.lazyFree = none) :
    m.availableSize = (numPages * page : Nat) := by
  have unheld : m.prefixCache.protectedSize = 0 := by
    refine (h.accounted.balanced.held_eq h.accounted.locks).trans ?_
    exact List.sum_eq_zero fun w mem => by
      obtain ⟨n, -, rfl⟩ := List.mem_map.mp mem
      rfl
  have sizes : m.prefixCache.evictableSize + m.prefixCache.protectedSize =
      (m.prefixCache.tree.slots.length : Int) :=
    h.accounted.balanced.length_slots h.accounted.ok
  have pages := h.owned.all.length_eq
  rw [PagePool.freePages, region, PagePool.allPages, h.numPages] at pages
  simp only [Option.getD_none, List.append_nil, List.nil_append, List.flatMap_nil, List.length_append,
    List.length_map, List.length_range] at pages
  rw [h.paged.length_eq h.positive, unheld, Int.add_zero] at sizes
  rw [availableSize, sizes, h.pageSize, ← pages]
  push_cast
  rw [← Int.add_mul, Int.add_comm]

end Core

end CacheManager

end FreeSwarm.Scheduler
