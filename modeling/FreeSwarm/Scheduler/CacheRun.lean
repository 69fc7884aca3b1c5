import FreeSwarm.Scheduler.CacheCalls

/-!
# Runs of the cache manager

Requests are matched, locked and seated once; pages are allocated for a forward and the forward is
launched, any number of times; a request is committed at the end of its prefill and finished. In
every order of these calls, whatever prefixes the requests share, each page has one owner.
-/

namespace FreeSwarm.Scheduler

open FreeSwarm.Foundation FreeSwarm.Foundation.PathTree FreeSwarm.KvCache

/-- A request that has not finished, with the tokens that pages were allocated for. -/
structure Admitted where
  req : Req
  allocated : Nat
  deriving DecidableEq, Repr

/-- The span of a row that the request owns. -/
def Admitted.span (page : Nat) (a : Admitted) : Span :=
  { idx := a.req.tableIdx, start := a.req.cacheHandle.cachedLen, stop := pageCeil page a.allocated }

/-- The cache manager with the requests that have not finished. -/
structure CacheRun where
  manager : CacheManager
  running : List Admitted

/-- What the scheduler does with the cache manager. -/
inductive CacheOp where
  | probe (pending : PendingReq) (tic : Nat)
  | refuse (pending : PendingReq) (tic : Nat)
  | admitReq (pending : PendingReq) (tableIdx chunk tic : Nat)
  | extend (tableIdx : Nat) (inputIds : List Nat) (outputLen : Nat)
  | allocatePaged (tableIdxs : List Nat) (tie : List RadixTreeNode → Nat)
  | completeOne (tableIdx : Nat)
  | appendHost (tableIdx nextToken : Nat)
  | commit (tableIdx tic now : Nat)
  | finish (tableIdx tic now : Nat)
  | enterLazyFree
  | leaveLazyFree

namespace CacheRun

/-- A new cache manager without requests. -/
def start (numPages pageSize : Nat) (pageTable : PageTable) : CacheRun :=
  { manager := CacheManager.create numPages pageSize pageTable, running := [] }

/-- The request in a row. -/
def find (s : CacheRun) (tableIdx : Nat) : Option Admitted :=
  s.running.find? fun a => a.req.tableIdx = tableIdx

/-- Another state of the request in a row. -/
def replace (running : List Admitted) (tableIdx : Nat) (a' : Admitted) : List Admitted :=
  running.map fun a => if a.req.tableIdx = tableIdx then a' else a

/-- The requests without that in a row. -/
def remove (running : List Admitted) (tableIdx : Nat) : List Admitted :=
  running.filter fun a => a.req.tableIdx ≠ tableIdx

/-- One step; nothing when an assertion fails. -/
def step (s : CacheRun) : CacheOp → Option CacheRun
  | .probe pending tic => (s.manager.matchReq pending tic).map fun (m, _) => { s with
      manager := m }
  | .refuse pending tic =>
    (s.manager.matchReq pending tic).bind fun (m, handle) =>
      (m.lock handle).bind fun m => (m.unlock handle).map fun m => { s with
        manager := m }
  | .admitReq pending tableIdx chunk tic =>
    (s.manager.matchReq pending tic).bind fun (m, handle) =>
      (m.lock handle).bind fun m =>
        (m.seat handle tableIdx).bind fun m =>
          (RunningReq.create pending.uid (pending.inputIds.take (handle.cachedLen + chunk)) tableIdx
            handle.cachedLen pending.outputLen handle pending.multimodal).map fun req =>
            { manager := m, running := { req := req, allocated := req.cachedLen } :: s.running }
  | .extend tableIdx inputIds outputLen =>
    (s.find tableIdx).bind fun a =>
      (RunningReq.create a.req.uid inputIds tableIdx a.req.cachedLen outputLen a.req.cacheHandle
        a.req.multimodal).map fun req => { s with
          running := replace s.running tableIdx { a with
            req := req } }
  | .allocatePaged tableIdxs tie =>
    (s.manager.allocatePaged ((tableIdxs.filterMap s.find).map Admitted.req) tie).map fun m =>
      { manager := m
        running := s.running.map fun a =>
          if a.req.tableIdx ∈ tableIdxs then { a with
            allocated := a.req.deviceLen } else a }
  | .completeOne tableIdx =>
    (s.find tableIdx).map fun a => { s with
      running := replace s.running tableIdx { a with
        req := a.req.completeOne } }
  | .appendHost tableIdx nextToken =>
    (s.find tableIdx).bind fun a =>
      (a.req.appendHost nextToken).map fun req => { s with
        running := replace s.running tableIdx { a with
          req := req } }
  | .commit tableIdx tic now =>
    (s.find tableIdx).bind fun a =>
      (s.manager.cacheReq a.req false tic now).map fun (m, req) =>
        { manager := m
          running := replace s.running tableIdx { a with
            req := req } }
  | .finish tableIdx tic now =>
    (s.find tableIdx).bind fun a =>
      (s.manager.cacheReq a.req true tic now).map fun (m, _) =>
        { manager := m, running := remove s.running tableIdx }
  | .enterLazyFree => some { s with
      manager := { s.manager with
        pool := s.manager.pool.enterLazyFree } }
  | .leaveLazyFree => some { s with
      manager := { s.manager with
        pool := s.manager.pool.leaveLazyFree } }

/-- What the scheduler keeps to: rows are given to one request at a time; pages are allocated for a
forward that has none yet, and the forward is launched after that; a request that is committed knows
the tokens it has forwarded, and a request finishes when no forward is pending. Lazy regions are not
nested. -/
def Keeps (s : CacheRun) : CacheOp → Prop
  | .admitReq _ tableIdx _ _ => ∀ a ∈ s.running, a.req.tableIdx ≠ tableIdx
  | .extend tableIdx inputIds _ => ∀ a ∈ s.running, a.req.tableIdx = tableIdx →
      a.allocated = a.req.cachedLen ∧ a.req.inputIds <+: inputIds
  | .allocatePaged tableIdxs _ => tableIdxs.Nodup ∧ ∀ idx ∈ tableIdxs, ∃ a ∈ s.running,
      a.req.tableIdx = idx ∧ a.allocated = a.req.cachedLen
  | .completeOne tableIdx => ∀ a ∈ s.running, a.req.tableIdx = tableIdx →
      a.allocated = a.req.deviceLen
  | .commit tableIdx _ _ => ∀ a ∈ s.running, a.req.tableIdx = tableIdx →
      a.req.cachedLen ≤ a.req.inputIds.length
  | .finish tableIdx _ _ => ∀ a ∈ s.running, a.req.tableIdx = tableIdx →
      a.req.cachedLen ≤ a.req.inputIds.length ∧ a.allocated = a.req.cachedLen
  | .enterLazyFree => s.manager.pool.lazyFree = none
  | _ => True

/-- The states that steps lead to. -/
inductive Reachable (numPages page : Nat) (pageTable : PageTable) : CacheRun → Prop where
  | start : 0 < page → Reachable numPages page pageTable (start numPages page pageTable)
  | step {s s' : CacheRun} (op : CacheOp) :
    Reachable numPages page pageTable s → s.Keeps op → s.step op = some s' →
    Reachable numPages page pageTable s'

/-! ## The invariant -/

/-- What holds of each request. -/
structure Seated (path : Nat → List Nat) (a : Admitted) : Prop where
  cachedLen : a.req.cacheHandle.cachedLen = (path a.req.cacheHandle.node).length
  along : path a.req.cacheHandle.node <+: a.req.inputIds
  root : a.req.multimodal = true → a.req.cacheHandle.node = 0
  started : a.req.cacheHandle.cachedLen ≤ a.req.cachedLen
  ordered : a.req.cachedLen < a.req.deviceLen
  allocated : a.allocated = a.req.cachedLen ∨ a.allocated = a.req.deviceLen

/-- The invariant: the manager is consistent with the locks and the spans of the requests. -/
structure Inv (numPages page : Nat) (m : CacheManager) (running : List Admitted)
    (path : Nat → List Nat) : Prop where
  core : m.Core numPages page (running.map fun a => a.req.cacheHandle.node) []
    (running.map (Admitted.span page)) path
  seated : ∀ a ∈ running, Seated path a

variable {numPages page : Nat} {m : CacheManager} {running rest : List Admitted} {a : Admitted}
  {path path' : Nat → List Nat} {s s' : CacheRun} {tableIdx : Nat}

theorem Inv.perm (h : Inv numPages page m running path) {running' : List Admitted}
    (same : running.Perm running') : Inv numPages page m running' path :=
  { core := { h.core with
      accounted := h.core.accounted.perm (same.map _)
      owned := h.core.owned.perm_spans (same.map _) }
    seated := fun a mem => h.seated a (same.mem_iff.mpr mem) }

theorem Inv.live (h : Inv numPages page m running path) (mem : a ∈ running) :
    Live m.prefixCache.tree.nodes a.req.cacheHandle.node :=
  h.core.accounted.locks.live _ (List.mem_map_of_mem mem)

theorem Inv.rows (h : Inv numPages page m running path) :
    (running.map fun a => a.req.tableIdx).Nodup := by
  have rows := h.core.owned.rows
  rw [List.map_map] at rows
  exact rows

theorem Seated.congr (h : Seated path a)
    (same : path' a.req.cacheHandle.node = path a.req.cacheHandle.node) : Seated path' a :=
  { h with
    cachedLen := by rw [same]; exact h.cachedLen
    along := by rw [same]; exact h.along }

theorem perm_of_find (rows : (running.map fun a => a.req.tableIdx).Nodup)
    (found : running.find? (fun a => a.req.tableIdx = tableIdx) = some a) :
    a ∈ running ∧ a.req.tableIdx = tableIdx ∧
      running.Perm (a :: remove running tableIdx) ∧
      ∀ a', (replace running tableIdx a').Perm (a' :: remove running tableIdx) := by
  have mem := List.mem_of_find?_eq_some found
  have here : a.req.tableIdx = tableIdx := by simpa using List.find?_some found
  obtain ⟨left, right, rfl⟩ := List.append_of_mem mem
  rw [List.map_append, List.map_cons, List.nodup_middle, List.nodup_cons, List.mem_append,
    not_or] at rows
  have left_other : ∀ b ∈ left, b.req.tableIdx ≠ tableIdx := fun b hb same =>
    rows.1.1 (List.mem_map.mpr ⟨b, hb, same.trans here.symm⟩)
  have right_other : ∀ b ∈ right, b.req.tableIdx ≠ tableIdx := fun b hb same =>
    rows.1.2 (List.mem_map.mpr ⟨b, hb, same.trans here.symm⟩)
  have others : remove (left ++ a :: right) tableIdx = left ++ right := by
    rw [remove, List.filter_append, List.filter_cons_of_neg (by simp [here]),
      List.filter_eq_self.mpr fun b hb => by simpa using left_other b hb,
      List.filter_eq_self.mpr fun b hb => by simpa using right_other b hb]
  refine ⟨mem, here, by rw [others]; exact List.perm_middle, fun a' => ?_⟩
  have replaced : replace (left ++ a :: right) tableIdx a' = left ++ a' :: right := by
    rw [replace, List.map_append, List.map_cons, if_pos here,
      List.map_congr_left fun b hb => if_neg (left_other b hb),
      List.map_congr_left (l := right) fun b hb => if_neg (right_other b hb)]
    simp
  rw [others, replaced]
  exact List.perm_middle

/-! ## Admission -/

variable {handle : RadixCacheHandle}

/-- Matching a request finds a beginning of its prompt and moves nothing. -/
theorem Inv.matchReq (h : Inv numPages page m running path) {pending : PendingReq} {tic : Nat}
    {m' : CacheManager}
    (done : m.matchReq pending tic = some (m', handle)) :
    ∃ path', Inv numPages page m' running path' ∧ Live m'.prefixCache.tree.nodes handle.node ∧
      handle.cachedLen = (path' handle.node).length ∧ path' handle.node <+: pending.inputIds ∧
      (pending.multimodal = true → handle.node = 0) ∧ m'.pool = m.pool ∧
      m'.prefixCache.protectedSize = m.prefixCache.protectedSize := by
  rw [CacheManager.matchReq] at done
  split at done
  · set ids := if pending.multimodal then [] else pending.inputIds.take (pending.inputLen - 1)
      with hids
    obtain ⟨rfl, rfl⟩ : _ = m' ∧ _ = handle := by simpa using done
    obtain ⟨path', core, arrived⟩ := h.core.matchPrefix ids tic
    obtain ⟨ok', kept⟩ := arrived.refined.live h.core.accounted.ok
    refine ⟨path', { core := core, seated := fun a mem => ?_ }, arrived.live,
      arrived.length_path.symm, ?_, fun multimodal => ?_, rfl, rfl⟩
    · exact (h.seated a mem).congr (kept _ (h.live mem)).2
    · rw [arrived.along]
      refine (List.take_prefix _ _).trans ?_
      rw [hids]
      split
      · exact List.nil_prefix
      · exact List.take_prefix _ _
    · refine (arrived.root_iff ok').mpr ?_
      have nothing : ids.length = 0 := by
        rw [hids, if_pos multimodal]
        rfl
      exact Nat.le_zero.mp (nothing ▸ arrived.inside)
  · exact absurd done (by simp)

theorem Inv.refuse (h : Inv numPages page m running path)
    (live : Live m.prefixCache.tree.nodes handle.node) :
    ∃ m' m'', m.lock handle = some m' ∧ m'.unlock handle = some m'' ∧
      Inv numPages page m'' running path := by
  obtain ⟨m', locked, -, core', -⟩ := h.core.lock live
  obtain ⟨m'', unlocked, -, core'', -⟩ := core'.unlock List.mem_cons_self
  rw [List.erase_cons_head] at core''
  exact ⟨m', m'', locked, unlocked, { core := core'', seated := h.seated }⟩

theorem Inv.admitReq (h : Inv numPages page m running path) {pending : PendingReq} {chunk : Nat}
    (live : Live m.prefixCache.tree.nodes handle.node)
    (cachedLen : handle.cachedLen = (path handle.node).length)
    (along : path handle.node <+: pending.inputIds)
    (root : pending.multimodal = true → handle.node = 0)
    (free : ∀ a ∈ running, a.req.tableIdx ≠ tableIdx) {m₁ m₂ : CacheManager} {req : Req}
    (locked : m.lock handle = some m₁) (seat : m₁.seat handle tableIdx = some m₂)
    (created : RunningReq.create pending.uid (pending.inputIds.take (handle.cachedLen + chunk))
      tableIdx handle.cachedLen pending.outputLen handle pending.multimodal = some req) :
    Inv numPages page m₂ ({ req := req, allocated := req.cachedLen } :: running) path := by
  obtain ⟨m', locked', -, core, -⟩ := h.core.lock live
  cases locked'.symm.trans locked
  have other : ∀ s ∈ running.map (Admitted.span page), s.idx ≠ tableIdx := by
    intro s mem
    obtain ⟨a, inside, rfl⟩ := List.mem_map.mp mem
    exact free a inside
  rw [RunningReq.create] at created
  split at created
  · rename_i more
    cases created
    have seated : m₂.Core numPages page (handle.node :: running.map fun a => a.req.cacheHandle.node)
        [] (running.map (Admitted.span page)) path := by
      rw [CacheManager.seat] at seat
      split at seat
      · obtain ⟨matched, -, rfl⟩ := Option.map_eq_some_iff.mp seat
        exact core.write fun s mem same => absurd same (other s mem)
      · exact Option.some.inj seat ▸ core
    have whole : page ∣ handle.cachedLen :=
      cachedLen ▸ h.core.accounted.ok.shaped.dvd_length_path live
    have whole' : m₂.pool.pageSize ∣ handle.cachedLen := seated.pageSize.symm ▸ whole
    have spans := seated.owned.seat other whole'
    refine { core := { seated with owned := ?_ }, seated := fun a mem => ?_ }
    · rw [List.map_cons, Admitted.span, pageCeil_eq_self h.core.positive whole]
      exact spans
    · rcases List.mem_cons.mp mem with rfl | mem
      · exact { cachedLen := cachedLen
                along := List.prefix_of_prefix_length_le along (List.take_prefix _ _)
                  (by rw [← cachedLen]; exact more.le)
                root := root, started := le_rfl, ordered := more, allocated := .inl rfl }
      · exact h.seated a mem
  · exact absurd created (by simp)

/-! ## Forwards -/

theorem Inv.setReq (h : Inv numPages page m (a :: rest) path) (req : Req)
    (idx : req.tableIdx = a.req.tableIdx) (handle : req.cacheHandle = a.req.cacheHandle)
    (seated : Seated path { a with req := req }) :
    Inv numPages page m ({ a with req := req } :: rest) path := by
  refine { core := ?_, seated := fun b mem => ?_ }
  · have core := h.core
    rw [List.map_cons, List.map_cons] at core ⊢
    simp only [Admitted.span, idx, handle] at core ⊢
    exact core
  · rcases List.mem_cons.mp mem with rfl | mem
    · exact seated
    · exact h.seated b (List.mem_cons_of_mem _ mem)

theorem Inv.update (h : Inv numPages page m running path)
    (found : running.find? (fun a => a.req.tableIdx = tableIdx) = some a) (req : Req)
    (idx : req.tableIdx = a.req.tableIdx) (handle : req.cacheHandle = a.req.cacheHandle)
    (seated : Seated path { a with req := req }) :
    Inv numPages page m (replace running tableIdx { a with req := req }) path := by
  obtain ⟨-, -, perm, replaced⟩ := perm_of_find h.rows found
  exact ((h.perm perm).setReq req idx handle seated).perm (replaced _).symm

theorem perm_filterMap (s : CacheRun) (rows : (s.running.map fun a => a.req.tableIdx).Nodup)
    {tableIdxs : List Nat} (distinct : tableIdxs.Nodup)
    (there : ∀ idx ∈ tableIdxs, ∃ a ∈ s.running, a.req.tableIdx = idx) :
    s.running.Perm (tableIdxs.filterMap s.find ++
      s.running.filter fun a => a.req.tableIdx ∉ tableIdxs) := by
  have found : ∀ a ∈ s.running, s.find a.req.tableIdx = some a := by
    intro a mem
    cases look : s.find a.req.tableIdx with
    | none =>
      have absent := List.find?_eq_none.mp look a mem
      simp at absent
    | some b =>
      have same : b.req.tableIdx = a.req.tableIdx := by simpa using List.find?_some look
      rw [List.inj_on_of_nodup_map rows (List.mem_of_find?_eq_some look) mem same]
  have mem_iff : ∀ a, a ∈ tableIdxs.filterMap s.find ↔
      a ∈ s.running ∧ a.req.tableIdx ∈ tableIdxs := by
    intro a
    rw [List.mem_filterMap]
    constructor
    · rintro ⟨idx, inside, look⟩
      have same : a.req.tableIdx = idx := by simpa using List.find?_some look
      exact ⟨List.mem_of_find?_eq_some look, same ▸ inside⟩
    · rintro ⟨mem, inside⟩
      exact ⟨_, inside, found a mem⟩
  have rows_of : (tableIdxs.filterMap s.find).map (fun a => a.req.tableIdx) = tableIdxs := by
    rw [List.map_filterMap]
    refine (List.filterMap_congr fun idx inside => ?_).trans List.filterMap_some
    obtain ⟨a, mem, rfl⟩ := there idx inside
    rw [found a mem, Option.map_some]
  have nodup : (tableIdxs.filterMap s.find).Nodup := .of_map _ (rows_of.symm ▸ distinct)
  refine (List.perm_ext_iff_of_nodup (.of_map _ rows) ?_).mpr fun a => ?_
  · refine List.nodup_append.mpr ⟨nodup, (List.Nodup.of_map _ rows).filter _, ?_⟩
    rintro a inside b outside rfl
    have absent := (List.mem_filter.mp outside).2
    simp only [decide_eq_true_eq] at absent
    exact absent ((mem_iff a).mp inside).2
  · rw [List.mem_append, mem_iff, List.mem_filter]
    by_cases inside : a.req.tableIdx ∈ tableIdxs <;> simp [inside]

theorem Inv.allocatePaged (h : Inv numPages page s.manager s.running path) {tableIdxs : List Nat}
    {tie : List RadixTreeNode → Nat} (distinct : tableIdxs.Nodup)
    (ready : ∀ idx ∈ tableIdxs, ∃ a ∈ s.running, a.req.tableIdx = idx ∧
      a.allocated = a.req.cachedLen)
    (done : s.manager.allocatePaged ((tableIdxs.filterMap s.find).map Admitted.req) tie = some m) :
    Inv numPages page m (s.running.map fun a =>
      if a.req.tableIdx ∈ tableIdxs then { a with allocated := a.req.deviceLen } else a) path := by
  set batch := tableIdxs.filterMap s.find with hbatch
  set others := s.running.filter (fun a => a.req.tableIdx ∉ tableIdxs) with hothers
  set grant : Admitted → Admitted := fun a =>
    if a.req.tableIdx ∈ tableIdxs then { a with allocated := a.req.deviceLen } else a with hgrant
  have perm := perm_filterMap s h.rows distinct fun idx inside => by
    obtain ⟨a, mem, same, -⟩ := ready idx inside
    exact ⟨a, mem, same⟩
  rw [← hbatch, ← hothers] at perm
  have h' := h.perm perm
  have inside : ∀ a ∈ batch, a ∈ s.running ∧ a.req.tableIdx ∈ tableIdxs ∧
      a.allocated = a.req.cachedLen := by
    intro a mem
    obtain ⟨idx, hidx, look⟩ := List.mem_filterMap.mp mem
    have same : a.req.tableIdx = idx := by simpa using List.find?_some look
    obtain ⟨b, hb, same', allocated⟩ := ready idx hidx
    have running := List.mem_of_find?_eq_some look
    obtain rfl := List.inj_on_of_nodup_map h.rows running hb (same.trans same'.symm)
    exact ⟨running, same ▸ hidx, allocated⟩
  have outside : ∀ a ∈ others, grant a = a := by
    intro a mem
    have absent := (List.mem_filter.mp mem).2
    simp only [decide_eq_true_eq] at absent
    exact if_neg absent
  have granted : ∀ a ∈ batch, grant a = { a with allocated := a.req.deviceLen } := fun a mem =>
    if_pos (inside a mem).2.1
  have before : (batch ++ others).map (Admitted.span page) = (batch.map Admitted.req).map
      (fun r : Req => ({ idx := r.tableIdx, start := r.cacheHandle.cachedLen,
                         stop := pageCeil page r.cachedLen } : Span)) ++
        others.map (Admitted.span page) := by
    rw [List.map_append, List.map_map]
    congr 1
    refine List.map_congr_left fun a mem => ?_
    rw [Admitted.span, (inside a mem).2.2]
    rfl
  have after : ((batch ++ others).map grant).map (Admitted.span page) =
      (batch.map Admitted.req).map
      (fun r : Req => ({ idx := r.tableIdx, start := r.cacheHandle.cachedLen,
                         stop := pageCeil page r.deviceLen } : Span)) ++
        others.map (Admitted.span page) := by
    have same : others.map grant = others := (List.map_congr_left outside).trans (List.map_id' _)
    rw [List.map_append, same, List.map_append, List.map_map, List.map_map]
    congr 1
    refine List.map_congr_left fun a mem => ?_
    rw [Function.comp_apply, granted a mem]
    rfl
  have nodes : ((batch ++ others).map grant).map (fun a => a.req.cacheHandle.node) =
      (batch ++ others).map fun a => a.req.cacheHandle.node := by
    rw [List.map_map]
    refine List.map_congr_left fun a _ => ?_
    rw [Function.comp_apply, hgrant]
    simp only
    split <;> rfl
  have core := h'.core
  rw [before] at core
  have core' := core.allocatePaged (fun r => r.cacheHandle.cachedLen) (fun r mem => by
    obtain ⟨a, hmem, rfl⟩ := List.mem_map.mp mem
    exact (h.seated a (inside a hmem).1).ordered.le) done
  refine @Inv.perm _ _ _ ((batch ++ others).map grant) _ ?_ _ (perm.symm.map grant)
  refine { core := ?_, seated := fun b mem => ?_ }
  · rw [after, nodes]
    exact core'
  · obtain ⟨a, hmem, rfl⟩ := List.mem_map.mp mem
    have seated := h'.seated a hmem
    rw [hgrant]
    simp only
    split
    · exact { seated with allocated := .inr rfl }
    · exact seated

/-! ## Commits -/

/-- What an insert of a request leaves: the request is unlocked, its duplicates are free, and the
rest of its span starts at the new prefix. -/
structure Inserted (numPages page : Nat) (m m' : CacheManager) (a : Admitted)
    (rest : List Admitted) (path path' : Nat → List Nat) (prefixLen : Nat)
    (handle : RadixCacheHandle) : Prop where
  core : m'.Core numPages page (rest.map fun b => b.req.cacheHandle.node) []
    ({ a.span page with start := handle.cachedLen } :: rest.map (Admitted.span page)) path'
  pageTable : m'.pool.pageTable = m.pool.pageTable
  seated : ∀ b ∈ rest, Seated path' b
  cachedLen : handle.cachedLen = alignDown a.req.cachedLen page
  short : prefixLen ≤ handle.cachedLen
  live : Live m'.prefixCache.tree.nodes handle.node
  along : path' handle.node = a.req.inputIds.take handle.cachedLen
  oldLive : Live m'.prefixCache.tree.nodes a.req.cacheHandle.node
  oldLength : (path' a.req.cacheHandle.node).length = a.req.cacheHandle.cachedLen
  longer : path' a.req.cacheHandle.node <+: path' handle.node
  before : m.prefixCache.protectedSize = m'.prefixCache.tree.cover path'
    (a.req.cacheHandle.node :: rest.map fun b => b.req.cacheHandle.node)

theorem Inv.insert (h : Inv numPages page m (a :: rest) path)
    (known : a.req.cachedLen ≤ a.req.inputIds.length) (tic now : Nat) :
    ∃ cache m₁ m' path' prefixLen handle,
      m.prefixCache.insertPrefix (a.req.inputIds.take a.req.cachedLen)
        (m.pool.pageTable.row a.req.tableIdx 0 a.req.cachedLen) tic now =
          some (cache, prefixLen, handle) ∧
      CacheManager.unlock { m with prefixCache := cache } a.req.cacheHandle = some m₁ ∧
      m' = m₁.free (((m.pool.pageTable.row a.req.tableIdx 0 a.req.cachedLen).take prefixLen).drop
        a.req.cacheHandle.cachedLen) ∧
      Inserted numPages page m m' a rest path path' prefixLen handle := by
  have seated := h.seated a List.mem_cons_self
  have length : (a.req.inputIds.take a.req.cachedLen).length = a.req.cachedLen := by
    rw [List.length_take, Nat.min_eq_left known]
  have forwarded : a.req.cachedLen ≤ a.allocated := by
    have ordered := seated.ordered
    rcases seated.allocated with same | same <;> omega
  have inside : alignDown a.req.cachedLen page ≤ (a.span page).stop :=
    (alignDown_le _ _).trans (forwarded.trans (le_pageCeil h.core.positive _))
  have reaches : ∃ u, Live m.prefixCache.tree.nodes u ∧
      path u <+: a.req.inputIds.take a.req.cachedLen ∧ (path u).length = (a.span page).start := by
    refine ⟨a.req.cacheHandle.node, h.live List.mem_cons_self, ?_, seated.cachedLen.symm⟩
    refine List.prefix_of_prefix_length_le seated.along (List.take_prefix _ _) ?_
    rw [length, ← seated.cachedLen]
    exact seated.started
  obtain ⟨cache, path', prefixLen, handle, done, start, short, cachedLen, live, along, kept, held,
    core⟩ := @CacheManager.Core.insertPrefix numPages page m _ _ path (a.span page) h.core
      (a.req.inputIds.take a.req.cachedLen) a.req.cachedLen tic now length inside reaches
  obtain ⟨m₁, unlocked, pool, core₁, shape⟩ :=
    @CacheManager.Core.unlock _ _ _ _ _ _ _ core a.req.cacheHandle List.mem_cons_self
  rw [List.map_cons, List.erase_cons_head] at core₁
  have dup : ((m.pool.pageTable.row a.req.tableIdx 0 a.req.cachedLen).take prefixLen).drop
      a.req.cacheHandle.cachedLen =
        m.pool.pageTable.row (a.span page).idx (a.span page).start prefixLen :=
    PageTable.slice_row (short.trans (alignDown_le _ _))
  have table : ∀ l, (m₁.free l).pool.pageTable = m.pool.pageTable := by
    intro l
    rw [CacheManager.free, PagePool.free, pool]
    split <;> rfl
  refine ⟨cache, m₁, _, path', prefixLen, handle, done, unlocked, rfl,
    { core := ?_, pageTable := table _, seated := fun b mem => ?_, cachedLen := cachedLen,
      short := cachedLen ▸ short, live := ?_, along := ?_, oldLive := ?_, oldLength := ?_,
      longer := ?_, before := ?_ }⟩
  · rw [cachedLen, dup]
    exact core₁.free (List.append_nil _).symm
  · exact (h.seated b (List.mem_cons_of_mem _ mem)).congr
      (kept _ (h.live (List.mem_cons_of_mem _ mem))).2
  · exact (shape.live _).mpr live
  · rw [along, List.take_take, cachedLen, Nat.min_eq_left (alignDown_le _ _)]
  · exact (shape.live _).mpr (kept _ (h.live List.mem_cons_self)).1
  · rw [(kept _ (h.live List.mem_cons_self)).2, seated.cachedLen]
  · rw [(kept _ (h.live List.mem_cons_self)).2, along, List.take_take,
      Nat.min_eq_left (alignDown_le _ _)]
    refine List.prefix_of_prefix_length_le seated.along (List.take_prefix _ _) ?_
    rw [List.length_take, Nat.min_eq_left ((alignDown_le _ _).trans known), ← seated.cachedLen]
    exact start.trans short
  · rw [← held]
    have before := core.accounted.balanced.held_eq core.accounted.locks
    exact before.trans (shape.cover_eq _ _).symm

theorem Inv.unlock_root (h : Inv numPages page m (a :: rest) path)
    (root : a.req.cacheHandle.node = 0) : m.unlock a.req.cacheHandle = some m := by
  rw [CacheManager.unlock, RadixPrefixCache.lockHandle, if_pos rfl, root,
    h.core.accounted.ok.up_root]
  rfl

theorem Inv.other_rows (h : Inv numPages page m (a :: rest) path) :
    ∀ s ∈ rest.map (Admitted.span page), s.idx ≠ a.req.tableIdx := by
  intro s mem same
  obtain ⟨b, hb, rfl⟩ := List.mem_map.mp mem
  have rows := h.rows
  rw [List.map_cons, List.nodup_cons] at rows
  exact rows.1 (List.mem_map.mpr ⟨b, hb, same⟩)

/-- A commit of a request that runs on succeeds: the request locks what it committed, and owns the
rest. -/
theorem Inv.commit (h : Inv numPages page m (a :: rest) path)
    (known : a.req.cachedLen ≤ a.req.inputIds.length) (tic now : Nat) :
    ∃ m' req path', m.cacheReq a.req false tic now = some (m', req) ∧
      Inv numPages page m' ({ a with req := req } :: rest) path' ∧
      req = { a.req with cacheHandle := req.cacheHandle } ∧
      m'.prefixCache.protectedSize + a.req.cacheHandle.cachedLen ≤
        m.prefixCache.protectedSize + req.cacheHandle.cachedLen := by
  have seated := h.seated a List.mem_cons_self
  cases multimodal : a.req.multimodal with
  | true =>
    refine ⟨m, a.req, path, ?_, h, rfl, le_rfl⟩
    rw [CacheManager.cacheReq]
    simp only [multimodal, if_true, h.unlock_root (seated.root multimodal), Option.map_some,
      Bool.false_eq_true, if_false]
  | false =>
    obtain ⟨cache, m₁, m₂, path', prefixLen, handle, done, unlocked, rfl, out⟩ :=
      h.insert known tic now
    set m₂ := m₁.free (((m.pool.pageTable.row a.req.tableIdx 0 a.req.cachedLen).take
      prefixLen).drop a.req.cacheHandle.cachedLen) with hm₂
    have pages : handle.cachedLen ≤ a.req.cachedLen := out.cachedLen ▸ alignDown_le _ _
    have length : (path' handle.node).length = handle.cachedLen := by
      rw [out.along, List.length_take, Nat.min_eq_left (pages.trans known)]
    obtain ⟨m₃, pointed, core₃, cache₃⟩ : ∃ m₃, m₂.repoint a.req prefixLen handle = some m₃ ∧
        m₃.Core numPages page (rest.map fun b => b.req.cacheHandle.node) []
          ({ a.span page with start := handle.cachedLen } :: rest.map (Admitted.span page)) path' ∧
        m₃.prefixCache = m₂.prefixCache := by
      rw [CacheManager.repoint]
      simp only
      split
      · rename_i more
        have nonempty : path' handle.node ≠ [] := List.ne_nil_of_length_pos (by
          have short := out.short
          omega)
        obtain ⟨canonical, found⟩ := out.core.getMatchedIndices nonempty
        refine ⟨_, by rw [found]; rfl, out.core.write ?_, rfl⟩
        intro s mem same
        rcases List.mem_cons.mp mem with rfl | mem
        · -- The row is written below the new prefix, where the request owns nothing any more.
          have short := out.short
          simp only [List.length_drop, List.length_take]
          omega
        · exact absurd same (h.other_rows s mem)
      · exact ⟨m₂, rfl, out.core, rfl⟩
    obtain ⟨m₄, locked, -, core₄, shape⟩ :=
      @CacheManager.Core.lock _ _ _ _ _ _ _ core₃ handle (cache₃ ▸ out.live)
    have covered : m₄.prefixCache.protectedSize + a.req.cacheHandle.cachedLen ≤
        m.prefixCache.protectedSize + handle.cachedLen := by
      have after := core₄.accounted.balanced.held_eq core₄.accounted.locks
      rw [shape.cover_eq, cache₃] at after
      have extend := out.core.accounted.ok.cover_extend out.oldLive out.live out.longer
        (rest.map fun b => b.req.cacheHandle.node)
      rw [← out.before, out.oldLength, length] at extend
      calc m₄.prefixCache.protectedSize + (a.req.cacheHandle.cachedLen : Int)
          = m₂.prefixCache.tree.cover path'
              (handle.node :: rest.map fun b => b.req.cacheHandle.node) +
              (a.req.cacheHandle.cachedLen : Int) := congrArg (· + _) after
        _ ≤ m.prefixCache.protectedSize + handle.cachedLen := extend
    refine ⟨m₄, { a.req with cacheHandle := handle }, path', ?_, { core := core₄, seated := ?_ },
      rfl, covered⟩
    · rw [CacheManager.cacheReq]
      simp only [multimodal, Bool.false_eq_true, if_false, done, Option.bind_some, unlocked]
      rw [← hm₂, pointed, Option.bind_some, locked, Option.map_some]
    · intro b mem
      rcases List.mem_cons.mp mem with rfl | mem
      · exact { cachedLen := length.symm
                along := by
                  change path' handle.node <+: a.req.inputIds
                  rw [out.along]
                  exact List.take_prefix _ _
                root := fun image => absurd (multimodal.symm.trans image) (by simp)
                started := pages, ordered := seated.ordered, allocated := seated.allocated }
      · exact out.seated b mem

/-- A finish of a request without a pending forward succeeds, and the request owns nothing any
more. -/
theorem Inv.finish (h : Inv numPages page m (a :: rest) path)
    (known : a.req.cachedLen ≤ a.req.inputIds.length) (launched : a.allocated = a.req.cachedLen)
    (tic now : Nat) :
    ∃ m' req path', m.cacheReq a.req true tic now = some (m', req) ∧
      Inv numPages page m' rest path' ∧
      m'.prefixCache.protectedSize ≤ m.prefixCache.protectedSize := by
  have seated := h.seated a List.mem_cons_self
  cases multimodal : a.req.multimodal with
  | true =>
    have unlocked := h.unlock_root (seated.root multimodal)
    obtain ⟨m₁, unlocked₁, -, core₁, -⟩ :=
      @CacheManager.Core.unlock numPages page m _ _ _ path h.core a.req.cacheHandle
        List.mem_cons_self
    cases unlocked.symm.trans unlocked₁
    rw [List.map_cons, List.erase_cons_head] at core₁
    have released := core₁.releaseAll
    have tail : m.pool.paddedTail a.req a.req.cacheHandle.cachedLen =
        m.pool.pageTable.row (a.span page).idx (a.span page).start (a.span page).stop := by
      rw [PagePool.paddedTail, h.core.pageSize, Admitted.span, launched]
    refine ⟨m.free (m.pool.paddedTail a.req a.req.cacheHandle.cachedLen), a.req, path, ?_,
      { core := ?_, seated := fun b mem => h.seated b (List.mem_cons_of_mem _ mem) }, le_rfl⟩
    · rw [CacheManager.cacheReq]
      simp only [multimodal, if_true, unlocked, Option.map_some]
    · rw [tail]
      exact released.free rfl
  | false =>
    obtain ⟨cache, m₁, m₂, path', prefixLen, handle, done, unlocked, rfl, out⟩ :=
      h.insert known tic now
    set m₂ := m₁.free (((m.pool.pageTable.row a.req.tableIdx 0 a.req.cachedLen).take
      prefixLen).drop a.req.cacheHandle.cachedLen) with hm₂
    have released := out.core.releaseAll
    have tail : m₂.pool.paddedTail a.req handle.cachedLen =
        m₂.pool.pageTable.row (a.span page).idx handle.cachedLen (a.span page).stop := by
      rw [PagePool.paddedTail, out.core.pageSize, Admitted.span, launched]
    have fewer : m₂.prefixCache.protectedSize ≤ m.prefixCache.protectedSize := by
      have after := out.core.accounted.balanced.held_eq out.core.accounted.locks
      have cover := RadixTree.cover_cons m₂.prefixCache.tree path' a.req.cacheHandle.node
        (rest.map fun b => b.req.cacheHandle.node)
      rw [← out.before] at cover
      exact after.trans_le cover
    refine ⟨m₂.free (m₂.pool.paddedTail a.req handle.cachedLen), a.req, path', ?_,
      { core := ?_, seated := out.seated }, fewer⟩
    · rw [CacheManager.cacheReq]
      simp only [multimodal, Bool.false_eq_true, if_false, done, Option.bind_some, unlocked,
        if_true]
      rfl
    · rw [tail]
      exact released.free rfl

/-! ## Runs -/

theorem Inv.step (h : Inv numPages page s.manager s.running path) {op : CacheOp}
    (keeps : s.Keeps op) (next : s.step op = some s') :
    ∃ path', Inv numPages page s'.manager s'.running path' := by
  cases op with
  | probe pending tic =>
    obtain ⟨⟨m, handle⟩, matched, rfl⟩ := Option.map_eq_some_iff.mp next
    obtain ⟨path', h', -⟩ := h.matchReq matched
    exact ⟨path', h'⟩
  | refuse pending tic =>
    obtain ⟨⟨m, handle⟩, matched, more⟩ := Option.bind_eq_some_iff.mp next
    obtain ⟨m₁, locked, more⟩ := Option.bind_eq_some_iff.mp more
    obtain ⟨m₂, unlocked, rfl⟩ := Option.map_eq_some_iff.mp more
    obtain ⟨path', h', live, -⟩ := h.matchReq matched
    obtain ⟨m₁', m₂', locked', unlocked', h''⟩ := h'.refuse live
    cases locked'.symm.trans locked
    cases unlocked'.symm.trans unlocked
    exact ⟨path', h''⟩
  | admitReq pending tableIdx chunk tic =>
    obtain ⟨⟨m, handle⟩, matched, more⟩ := Option.bind_eq_some_iff.mp next
    obtain ⟨m₁, locked, more⟩ := Option.bind_eq_some_iff.mp more
    obtain ⟨m₂, seat, more⟩ := Option.bind_eq_some_iff.mp more
    obtain ⟨req, created, rfl⟩ := Option.map_eq_some_iff.mp more
    obtain ⟨path', h', live, cachedLen, along, root, -⟩ := h.matchReq matched
    exact ⟨path', h'.admitReq live cachedLen along root keeps locked seat created⟩
  | extend tableIdx inputIds outputLen =>
    obtain ⟨a, found, more⟩ := Option.bind_eq_some_iff.mp next
    obtain ⟨req, created, rfl⟩ := Option.map_eq_some_iff.mp more
    obtain ⟨mem, here, -⟩ := perm_of_find h.rows found
    obtain ⟨launched, longer⟩ := keeps a mem here
    have seated := h.seated a mem
    rw [RunningReq.create] at created
    split at created
    · rename_i room
      cases created
      refine ⟨path, h.update found _ here.symm rfl ?_⟩
      exact { cachedLen := seated.cachedLen, along := seated.along.trans longer,
              root := seated.root, started := seated.started, ordered := room,
              allocated := .inl launched }
    · exact absurd created (by simp)
  | allocatePaged tableIdxs tie =>
    obtain ⟨m, done, rfl⟩ := Option.map_eq_some_iff.mp next
    exact ⟨path, h.allocatePaged keeps.1 keeps.2 done⟩
  | completeOne tableIdx =>
    obtain ⟨a, found, rfl⟩ := Option.map_eq_some_iff.mp next
    obtain ⟨mem, here, -⟩ := perm_of_find h.rows found
    have seated := h.seated a mem
    refine ⟨path, h.update found _ rfl rfl ?_⟩
    exact { cachedLen := seated.cachedLen, along := seated.along, root := seated.root,
            started := seated.started.trans seated.ordered.le, ordered := Nat.lt_succ_self _,
            allocated := .inl (keeps a mem here) }
  | appendHost tableIdx nextToken =>
    obtain ⟨a, found, more⟩ := Option.bind_eq_some_iff.mp next
    obtain ⟨req, appended, rfl⟩ := Option.map_eq_some_iff.mp more
    obtain ⟨mem, here, -⟩ := perm_of_find h.rows found
    have seated := h.seated a mem
    rw [RunningReq.appendHost] at appended
    split at appended
    · cases appended
      refine ⟨path, h.update found _ rfl rfl ?_⟩
      exact { seated with along := seated.along.trans (List.prefix_append _ _) }
    · exact absurd appended (by simp)
  | commit tableIdx tic now =>
    obtain ⟨a, found, more⟩ := Option.bind_eq_some_iff.mp next
    obtain ⟨⟨m, req⟩, committed, rfl⟩ := Option.map_eq_some_iff.mp more
    obtain ⟨mem, here, perm, replaced⟩ := perm_of_find h.rows found
    obtain ⟨m', req', path', committed', h', -⟩ := (h.perm perm).commit (keeps a mem here) tic now
    obtain ⟨rfl, rfl⟩ : m' = m ∧ req' = req := by simpa using committed'.symm.trans committed
    exact ⟨path', h'.perm (replaced _).symm⟩
  | finish tableIdx tic now =>
    obtain ⟨a, found, more⟩ := Option.bind_eq_some_iff.mp next
    obtain ⟨⟨m, req⟩, finished, rfl⟩ := Option.map_eq_some_iff.mp more
    obtain ⟨mem, here, perm, -⟩ := perm_of_find h.rows found
    obtain ⟨known, launched⟩ := keeps a mem here
    obtain ⟨m', req', path', finished', h', -⟩ := (h.perm perm).finish known launched tic now
    obtain ⟨rfl, rfl⟩ : m' = m ∧ req' = req := by simpa using finished'.symm.trans finished
    exact ⟨path', h'⟩
  | enterLazyFree =>
    cases next
    exact ⟨path, { core := h.core.setPool rfl rfl (h.core.owned.enterLazyFree keeps)
                   seated := h.seated }⟩
  | leaveLazyFree =>
    cases next
    exact ⟨path, { core := h.core.setPool rfl rfl h.core.owned.leaveLazyFree
                   seated := h.seated }⟩

theorem Reachable.inv {pageTable : PageTable} (reached : Reachable numPages page pageTable s) :
    ∃ path, Inv numPages page s.manager s.running path := by
  induction reached with
  | start positive =>
    refine ⟨fun _ => [], { core := ?_, seated := by simp [CacheRun.start] }⟩
    exact { numPages := rfl, pageSize := rfl, cachePageSize := rfl
            accounted := SizedTree.accounted_empty positive
            paged := Paged.nil
            owned := PagePool.owned_create positive pageTable }
  | step _ _ keeps next ih =>
    obtain ⟨path, h⟩ := ih
    exact h.step keeps next

/-- The pages of a part of a row that a request owns. -/
def privatePages (s : CacheRun) (a : Admitted) : List Int :=
  s.manager.pool.spanPages (a.span s.manager.pool.pageSize)

/-- In every state, the free pages, the pages of the tree nodes and the private pages of the requests
that have not finished are all pages of the pool, each once. The slots of a node and of a private
span are whole pages. When no request is left, the free pages and the evictable and protected tokens
make up the pool. -/
theorem pages_owned_once {pageTable : PageTable} (reached : Reachable numPages page pageTable s) :
    (s.manager.pool.freePages ++
      ((s.manager.prefixCache.tree.nodes.flatMap fun n => stride page n.data.value) ++
        s.running.flatMap s.privatePages)).Perm
      ((List.range numPages).map fun i : Nat => (i : Int) * page) ∧
    ((List.range numPages).map fun i : Nat => (i : Int) * page).Nodup ∧
    (∀ n ∈ s.manager.prefixCache.tree.nodes,
      n.data.value = toTokens page (stride page n.data.value)) ∧
    (∀ a ∈ s.running, s.manager.pool.pageTable.row a.req.tableIdx a.req.cacheHandle.cachedLen
      (pageCeil page a.allocated) = toTokens page (s.privatePages a)) ∧
    (s.running = [] → s.manager.pool.lazyFree = none → s.manager.checkIntegrity ∧
      (s.manager.pool.freeSlots.length : Int) * page + s.manager.prefixCache.evictableSize +
        s.manager.prefixCache.protectedSize = numPages * page) := by
  obtain ⟨path, h⟩ := reached.inv
  obtain ⟨numPages_eq, pageSize, cachePageSize, accounted, paged, owned⟩ := h.core
  have each := h.core.paged_node
  have positive := h.core.positive
  have tree := (Paged.flatMap positive each).2
  have all := owned.all
  have slots : stride page s.manager.prefixCache.tree.slots =
      s.manager.prefixCache.tree.nodes.flatMap fun n => stride page n.data.value := tree
  rw [PagePool.allPages, numPages_eq, pageSize, List.nil_append, slots, List.flatMap_map] at all
  have own : s.privatePages = fun a => s.manager.pool.spanPages (a.span page) := by
    funext a
    rw [privatePages, pageSize]
  rw [own]
  have nodup := PagePool.nodup_allPages owned.positive
  rw [PagePool.allPages, numPages_eq, pageSize] at nodup
  refine ⟨all, nodup, fun n mem => (each n mem).eq positive, fun a mem => ?_, ?_⟩
  · have aligned := owned.aligned _ (List.mem_map_of_mem mem)
    have whole := aligned.paged.eq owned.positive
    rw [pageSize] at whole
    change _ = toTokens page (stride s.manager.pool.pageSize _)
    rw [pageSize]
    exact whole
  · intro idle region
    have lengths := all.length_eq
    rw [idle, PagePool.freePages, region, List.flatMap_nil, List.append_nil, ← slots] at lengths
    simp only [Option.getD_none, List.append_nil, List.length_append, List.length_map,
      List.length_range] at lengths
    have tokens := paged.length_eq positive
    have sizes := accounted.balanced.length_slots accounted.ok
    have total : s.manager.prefixCache.evictableSize + s.manager.prefixCache.protectedSize =
        ((stride page s.manager.prefixCache.tree.slots).length : Int) * page := by
      rw [← Int.natCast_mul, ← tokens]
      exact sizes
    refine ⟨⟨?_, fun _ slot mem => ?_⟩, ?_⟩
    · rw [total, pageSize, Int.mul_ediv_cancel _ (by omega), numPages_eq]
      omega
    · rw [pageSize]
      have inside := all.mem_iff.mp (List.mem_append_left _ (List.mem_append_left _ mem))
      obtain ⟨i, -, rfl⟩ := List.mem_map.mp inside
      exact Int.dvd_mul_left _ _
    · rw [Int.add_assoc, total, ← Int.add_mul, ← lengths, Int.natCast_add]

/-- One request with pages for its prompt. -/
theorem pages_owned_once_small : ∃ s : CacheRun,
    Reachable 3 2 (fun _ _ => 0) s ∧ s.manager.pool.freePages = [4] ∧
      s.running.flatMap s.privatePages = [0, 2] ∧
      (s.manager.pool.freePages ++
        ((s.manager.prefixCache.tree.nodes.flatMap fun n => stride 2 n.data.value) ++
          s.running.flatMap s.privatePages)).Perm
        ((List.range 3).map fun i : Nat => (i : Int) * (2 : Nat)) := by
  have new : Reachable 3 2 (fun _ _ => 0) (start 3 2 fun _ _ => 0) := .start Nat.two_pos
  have admitted := Reachable.step (.admitReq ⟨1, [5, 6, 7], 2, false⟩ 0 3 1) new
    (by simp [Keeps, start]) rfl
  have allocated := Reachable.step (.allocatePaged [0] fun _ => 0) admitted
    ⟨by decide, fun idx mem => ⟨_, List.mem_singleton.mpr rfl,
      (List.mem_singleton.mp mem).symm, rfl⟩⟩ rfl
  exact ⟨_, allocated, by decide, by decide, (pages_owned_once allocated).1⟩

/-- In every order of the calls, allocating the pages for the next forward of any requests succeeds
exactly when so many tokens are available, and takes just them. When no request is left, every page
is available. -/
theorem allocation_exact {numPages page : Nat} {pageTable : PageTable} {s : CacheRun}
    (reached : Reachable numPages page pageTable s) :
    (∀ (reqs : List Req) (tie : List RadixTreeNode → Nat),
      let needed : Int := CacheManager.neededTokens page reqs
      (needed ≤ s.manager.availableSize → ∃ m, s.manager.allocatePaged reqs tie = some m ∧
        s.manager.availableSize = needed + m.availableSize) ∧
      (s.manager.availableSize < needed → s.manager.allocatePaged reqs tie = none)) ∧
    (s.running = [] → s.manager.pool.lazyFree = none →
      s.manager.availableSize = (numPages * page : Nat)) := by
  obtain ⟨path, h⟩ := reached.inv
  refine ⟨fun reqs _ => h.core.allocatePaged_available reqs, fun idle region => ?_⟩
  have core := h.core
  rw [idle] at core
  exact core.idle_available region

/-- After a request has finished, its cached page counts as the free ones do. -/
theorem allocation_exact_small : ∃ s : CacheRun, Reachable 3 2 (fun _ _ => 0) s ∧
    s.manager.pool.freeSlots.length = 2 ∧ s.manager.availableSize = 6 := by
  have new : Reachable 3 2 (fun _ _ => 0) (start 3 2 fun _ _ => 0) := .start Nat.two_pos
  have admitted := Reachable.step (.admitReq ⟨1, [5, 6, 7], 2, false⟩ 0 3 1) new
    (by simp [Keeps, start]) rfl
  have allocated := Reachable.step (.allocatePaged [0] fun _ => 0) admitted
    ⟨by decide, fun idx mem => ⟨_, List.mem_singleton.mpr rfl,
      (List.mem_singleton.mp mem).symm, rfl⟩⟩ rfl
  have forwarded := Reachable.step (.completeOne 0) allocated
    (fun a mem _ => by cases List.mem_singleton.mp mem; rfl) rfl
  have finished := Reachable.step (.finish 0 2 2) forwarded
    (fun a mem _ => by cases List.mem_singleton.mp mem; exact ⟨by decide, rfl⟩) rfl
  exact ⟨_, finished, rfl, (allocation_exact finished).2 rfl rfl⟩

end CacheRun

end FreeSwarm.Scheduler
