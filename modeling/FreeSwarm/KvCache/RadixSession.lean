import FreeSwarm.KvCache.RadixPrefix

/-!
# Any sequence of calls on the plain prefix cache

Callers match, insert, lock, unlock and evict in any order. Each unlock gives back an earlier lock of
the same handle, and a lock is taken on a handle whose node has not been evicted yet. Then the two
size counters stay exact, so that evicting no more than the evictable size never fails, and what is
locked is never evicted.
-/

namespace FreeSwarm.KvCache

open FreeSwarm.Foundation FreeSwarm.Foundation.PathTree

namespace RadixTree

/-- The tokens on the way from the root to a node. -/
def tokensOf (t : RadixTree) (u : Nat) : List Nat := (t.up u).reverse.flatMap fun n => n.key

theorem Ok.tokensOf_eq {page : Nat} {t : RadixTree} {path : Nat → List Nat} (h : t.Ok page path)
    {u : Nat} (live : Live t.nodes u) : t.tokensOf u = path u :=
  (h.climb live).keys h.shaped

end RadixTree

/-- A lock that is held: its handle, and the tokens on its path when it was taken. -/
structure Lock where
  handle : RadixCacheHandle
  tokens : List Nat
  deriving DecidableEq, Repr

/-- A cache with the locks held on it. -/
structure Session where
  cache : RadixPrefixCache
  held : List Lock

inductive Call where
  | matchPrefix (ids : List Nat) (tic : Nat)
  | insertPrefix (ids : List Nat) (indices : List Int) (tic now : Nat)
  | lock (handle : RadixCacheHandle)
  | unlock (handle : RadixCacheHandle)
  | evict (size : Nat) (tie : List RadixTreeNode → Nat)

namespace Session

/-- A new cache without locks. -/
def start (page : Nat) : Session := { cache := RadixPrefixCache.create page, held := [] }

def locked (s : Session) : List Nat := s.held.map fun l => l.handle.node

/-- One call; nothing when an assertion of the cache fails. -/
def step (s : Session) : Call → Option Session
  | .matchPrefix ids tic => some { s with
      cache := (s.cache.matchPrefix ids tic).1 }
  | .insertPrefix ids indices tic now =>
    (s.cache.insertPrefix ids indices tic now).map fun r => { s with
      cache := r.1 }
  | .lock handle => (s.cache.lockHandle handle false).map fun c =>
      { cache := c
        held := { handle := handle, tokens := s.cache.tree.tokensOf handle.node } :: s.held }
  | .unlock handle => (s.cache.lockHandle handle true).map fun c =>
      { cache := c
        held := s.held.eraseP fun l => l.handle = handle }
  | .evict size tie => (s.cache.evict size tie).map fun r => { s with
      cache := r.1 }

/-- What the callers keep to: locks are taken on nodes of the tree, and only locks that are held are
given back. -/
def Keeps (s : Session) : Call → Prop
  | .lock handle => Live s.cache.tree.nodes handle.node
  | .unlock handle => ∃ l ∈ s.held, l.handle = handle
  | _ => True

/-- The states that calls lead to. -/
inductive Reachable (page : Nat) : Session → Prop where
  | start : 0 < page → Reachable page (start page)
  | step {s s' : Session} (call : Call) :
    Reachable page s → s.Keeps call → s.step call = some s' → Reachable page s'

/-- The invariant of a session: the counters and references are those of the locks held, and the
path of each lock has the tokens it had. -/
structure Inv (page : Nat) (s : Session) (path : Nat → List Nat) : Prop where
  pageSize : s.cache.pageSize = page
  accounted : s.cache.sized.Accounted page path s.locked
  tokens : ∀ l ∈ s.held, path l.handle.node = l.tokens

variable {page : Nat} {s s' : Session} {path : Nat → List Nat}

theorem Inv.live (h : Inv page s path) {l : Lock} (mem : l ∈ s.held) :
    Live s.cache.tree.nodes l.handle.node :=
  h.accounted.locks.live _ (List.mem_map_of_mem mem)

theorem Inv.of_kept (h : Inv page s path) {c : RadixPrefixCache} {path' : Nat → List Nat}
    (pageSize : c.pageSize = page) (accounted : c.sized.Accounted page path' s.locked)
    (kept : ∀ u, Live s.cache.tree.nodes u → path' u = path u) :
    Inv page { s with cache := c } path' := by
  refine { pageSize := pageSize, accounted := accounted, tokens := fun l mem => ?_ }
  rw [kept _ (h.live mem), h.tokens l mem]

theorem perm_eraseP {held : List Lock} {handle : RadixCacheHandle}
    (holds : ∃ l ∈ held, l.handle = handle) :
    ((held.map fun l => l.handle.node).erase handle.node).Perm
      ((held.eraseP fun l => l.handle = handle).map fun l => l.handle.node) := by
  obtain ⟨l, mem, same⟩ := holds
  obtain ⟨a, front, back, -, here, whole, left⟩ :=
    List.exists_of_eraseP (p := fun l : Lock => l.handle = handle) mem (by simpa using same)
  have node : a.handle.node = handle.node := by rw [of_decide_eq_true here]
  rw [left, whole, List.map_append, List.map_append, List.map_cons, node]
  have middle := @List.perm_middle _ handle.node (front.map fun l => l.handle.node)
    (back.map fun l => l.handle.node)
  exact (middle.erase handle.node).trans (by rw [List.erase_cons_head])

theorem Inv.step (h : Inv page s path) {call : Call} (keeps : s.Keeps call)
    (next : s.step call = some s') : ∃ path', Inv page s' path' := by
  obtain ⟨rfl, accounted, tokens⟩ := h
  have h : Inv s.cache.pageSize s path := ⟨rfl, accounted, tokens⟩
  cases call with
  | matchPrefix ids tic =>
    obtain ⟨path', pageSize, accounted', arrived⟩ := RadixPrefixCache.matchPrefix_spec accounted
      ids tic
    cases next
    exact ⟨path', h.of_kept pageSize accounted' fun u live =>
      ((arrived.refined.live accounted.ok).2 u live).2⟩
  | insertPrefix ids indices tic now =>
    obtain ⟨⟨c, prefixLen, handle⟩, done, rfl⟩ := Option.map_eq_some_iff.mp next
    obtain ⟨path', out⟩ := RadixPrefixCache.inserted_of_some accounted done
    exact ⟨path', h.of_kept out.pageSize out.accounted fun u live => (out.kept u live).2⟩
  | lock handle =>
    obtain ⟨c, done, pageSize, accounted', -⟩ := RadixPrefixCache.lock_spec accounted keeps
    simp only [Session.step, done, Option.map_some, Option.some.injEq] at next
    subst next
    refine ⟨path, { pageSize := pageSize, accounted := accounted', tokens := fun l mem => ?_ }⟩
    rcases List.mem_cons.mp mem with rfl | mem
    · exact (accounted.ok.tokensOf_eq keeps).symm
    · exact tokens l mem
  | unlock handle =>
    obtain ⟨l, mem, same⟩ := keeps
    have holds : handle.node ∈ s.locked := same ▸ List.mem_map_of_mem mem
    obtain ⟨c, done, pageSize, accounted', -⟩ := RadixPrefixCache.unlock_spec accounted holds
    simp only [Session.step, done, Option.map_some, Option.some.injEq] at next
    subst next
    exact ⟨path, { pageSize := pageSize, accounted := accounted'.perm (perm_eraseP ⟨l, mem, same⟩),
                   tokens := fun l mem => tokens l (List.mem_of_mem_eraseP mem) }⟩
  | evict size tie =>
    obtain ⟨⟨c, out⟩, done, rfl⟩ := Option.map_eq_some_iff.mp next
    have enough := RadixPrefixCache.size_le_of_evict done accounted.balanced.sizes_nonneg.1
    obtain ⟨c', gone, done', evicted, -⟩ := RadixPrefixCache.evict_spec tie accounted enough
    obtain ⟨rfl, rfl⟩ : c' = c ∧ _ = out := by simpa using done'.symm.trans done
    exact ⟨path, h.of_kept evicted.pageSize (evicted.pageSize ▸ evicted.accounted) fun _ _ => rfl⟩

theorem Reachable.inv (reached : Reachable page s) : ∃ path, Inv page s path := by
  induction reached with
  | start positive =>
    exact ⟨fun _ => [], { pageSize := rfl, accounted := SizedTree.accounted_empty positive,
                          tokens := by simp [Session.start] }⟩
  | step _ _ keeps next ih =>
    obtain ⟨path, h⟩ := ih
    exact h.step keeps next

theorem Inv.referenced (h : Inv page s path) {l : Lock} (mem : l ∈ s.held) {n : RadixTreeNode}
    (above : n ∈ s.cache.tree.up l.handle.node) : n ∈ s.cache.tree.nodes ∧ 0 < n.data.refCount := by
  obtain ⟨hn, through⟩ :=
    ((h.accounted.ok.climb (h.live mem)).mem_iff h.accounted.ok.shaped).mp above
  refine ⟨hn, ?_⟩
  rw [h.accounted.locks.refs n hn]
  have here : 0 < RadixTree.locksBelow path s.locked (path n.id) :=
    List.countP_pos_iff.mpr ⟨_, List.mem_map_of_mem mem, decide_eq_true through⟩
  omega

/-- After any calls, the evictable and the protected size are the sums of the edges without and with
references, a parent has at least the references of each child, nothing is negative, the path of a
locked handle has the tokens it had when it was locked and can be unlocked. Evicting no more than the
evictable size succeeds, frees at least what was asked for, returns exactly the slots of the nodes
taken off, and keeps the path of every locked handle. -/
theorem reachable_accounting (reached : Reachable page s) :
    s.cache.evictableSize = total freeWeight s.cache.tree.nodes ∧
    s.cache.protectedSize = total heldWeight s.cache.tree.nodes ∧
    (∀ n ∈ s.cache.tree.nodes, ∀ m ∈ s.cache.tree.nodes, m.parent = n.id →
      m.data.refCount ≤ n.data.refCount) ∧
    (0 ≤ s.cache.evictableSize ∧ 0 ≤ s.cache.protectedSize ∧
      ∀ n ∈ s.cache.tree.nodes, 0 ≤ n.data.refCount) ∧
    (∀ l ∈ s.held, s.cache.tree.tokensOf l.handle.node = l.tokens ∧
      (s.cache.lockHandle l.handle true).isSome = true) ∧
    ∀ (size : Nat) (tie : List RadixTreeNode → Nat), (size : Int) ≤ s.cache.evictableSize →
      ∃ (c : RadixPrefixCache) (out : List Int) (gone : List RadixTreeNode),
        s.cache.evict size tie = some (c, out) ∧ size ≤ out.length ∧
        s.cache.tree.nodes.Perm (gone ++ c.tree.nodes) ∧
        out = (gone.flatMap fun n => n.data.value) ∧
        ∀ l ∈ s.held, ∀ n ∈ s.cache.tree.up l.handle.node, n ∉ gone ∧ n ∈ c.tree.nodes := by
  obtain ⟨path, h⟩ := reached.inv
  obtain ⟨rfl, accounted, tokens⟩ := id h
  obtain ⟨evictable, held, nonneg⟩ := id accounted.balanced
  have sizes := accounted.balanced.sizes_nonneg
  refine ⟨evictable, held, ?_, ⟨sizes.1, sizes.2, nonneg⟩, ?_, ?_⟩
  · intro n hn m hm parent
    refine accounted.locks.refCount_anti hn hm ?_
    rw [accounted.ok.shaped.path_eq m hm, parent]
    exact List.prefix_append _ _
  · intro l mem
    refine ⟨(accounted.ok.tokensOf_eq (h.live mem)).trans (tokens l mem), ?_⟩
    obtain ⟨c, done, -⟩ := RadixPrefixCache.unlock_spec accounted (List.mem_map_of_mem mem)
    rw [done, Option.isSome_some]
  · intro size tie enough
    obtain ⟨c, gone, done, evicted, freed⟩ := RadixPrefixCache.evict_spec tie accounted enough
    refine ⟨c, _, gone, done, freed, evicted.perm, rfl, fun l mem n above => ?_⟩
    obtain ⟨hn, referenced⟩ := h.referenced mem above
    have stays : n ∉ gone := fun inside => referenced.ne' (evicted.free n inside)
    exact ⟨stays, (List.mem_append.mp (evicted.perm.mem_iff.mp hn)).resolve_left stays⟩

/-- A locked path that is split still counts. -/
theorem reachable_accounting_small : ∃ s : Session, Reachable 1 s ∧
    s.held = [{ handle := { cachedLen := 2, node := 1 }, tokens := [1, 2] }] ∧
    s.cache.tree.nodes.map (fun n => n.key) = [[1], [2], [3]] ∧
    s.cache.protectedSize = total heldWeight s.cache.tree.nodes := by
  have inserted := Reachable.step (.insertPrefix [1, 2] [10, 11] 1 1) (.start Nat.one_pos) trivial rfl
  have locked := Reachable.step (.lock { cachedLen := 2, node := 1 }) inserted
    (.inr ⟨_, List.mem_singleton.mpr rfl, rfl⟩) rfl
  have split := Reachable.step (.insertPrefix [1, 3] [20, 21] 2 2) locked trivial rfl
  exact ⟨_, split, rfl, rfl, (reachable_accounting split).2.1⟩

/-- Without the contract on locks: after a match, an eviction of the matched node and a lock of the
matched handle, the evictable size is negative. -/
theorem evicted_handle_locked :
    ∃ s s' : Session, (start 1).step (.insertPrefix [1] [10] 1 1) = some s ∧
      s.step (.matchPrefix [1] 2) = some s' ∧
      (s.cache.matchPrefix [1] 2).2 = { cachedLen := 1, node := 1 } ∧
      ((s'.step (.evict 1 fun _ => 0)).bind fun s => s.step (.lock { cachedLen := 1, node := 1 })).map
        (fun s => (s.cache.evictableSize, s.cache.tree.nodes.length)) = some (-1, 0) :=
  ⟨_, _, rfl, rfl, rfl, rfl⟩

end Session

end FreeSwarm.KvCache
