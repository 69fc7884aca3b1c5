import Mathlib.Algebra.Order.BigOperators.Group.List
import FreeSwarm.KvCache.RadixWalk

/-!
# Reference counts of a radix tree

The reference count of a node is the number of locks whose path goes through it, however the path
was split since it was locked. Two counters sum the tokens of the nodes without and with references.
All three prefix caches keep both facts; what touching, splitting, adding, locking, unlocking and
taking off do to them is shown here once.
-/

namespace FreeSwarm.KvCache

open FreeSwarm.Foundation FreeSwarm.Foundation.PathTree

/-- The tokens of a node, if nothing references it. -/
def freeWeight (n : RadixTreeNode) : Int := if n.data.refCount = 0 then n.key.length else 0

/-- The tokens of a node, if something references it. -/
def heldWeight (n : RadixTreeNode) : Int := if 0 < n.data.refCount then n.key.length else 0

namespace RadixTree

/-- The counters are the sums they name, and no reference count is negative. -/
structure Balanced (t : RadixTree) (evictable held : Int) : Prop where
  evictable : evictable = total freeWeight t.nodes
  held : held = total heldWeight t.nodes
  nonneg : ∀ n ∈ t.nodes, 0 ≤ n.data.refCount

def locksBelow (path : Nat → List Nat) (locked : List Nat) (p : List Nat) : Nat :=
  locked.countP fun u => decide (p <+: path u)

theorem Balanced.sizes_nonneg {t : RadixTree} {evictable held : Int}
    (h : t.Balanced evictable held) : 0 ≤ evictable ∧ 0 ≤ held := by
  rw [h.evictable, h.held]
  constructor
  · refine List.sum_nonneg fun w mem => ?_
    obtain ⟨n, -, rfl⟩ := List.mem_map.mp mem
    unfold freeWeight
    split <;> omega
  · refine List.sum_nonneg fun w mem => ?_
    obtain ⟨n, -, rfl⟩ := List.mem_map.mp mem
    unfold heldWeight
    split <;> omega

structure Locked (t : RadixTree) (path : Nat → List Nat) (locked : List Nat) : Prop where
  live : ∀ u ∈ locked, Live t.nodes u
  refs : ∀ n ∈ t.nodes, n.data.refCount = (locksBelow path locked (path n.id) : Nat)

variable {page : Nat} {t : RadixTree} {path : Nat → List Nat} {locked : List Nat}
  {evictable held : Int}

theorem balanced_empty : empty.Balanced 0 0 :=
  { evictable := rfl, held := rfl, nonneg := by simp [empty] }

theorem locked_empty (path : Nat → List Nat) : empty.Locked path [] :=
  { live := by simp, refs := by simp [empty] }

theorem locksBelow_anti {p q : List Nat} (longer : p <+: q) :
    locksBelow path locked q ≤ locksBelow path locked p :=
  List.countP_mono_left fun _ _ below => decide_eq_true (longer.trans (of_decide_eq_true below))

theorem Locked.refCount_anti (h : t.Locked path locked) {n m : RadixTreeNode} (hn : n ∈ t.nodes)
    (hm : m ∈ t.nodes) (above : path n.id <+: path m.id) : m.data.refCount ≤ n.data.refCount := by
  rw [h.refs n hn, h.refs m hm]
  exact Int.ofNat_le.mpr (locksBelow_anti above)

/-! ## Touches, splits and new leaves -/

variable {f : RadixData → RadixData} {c : RadixTreeNode}

theorem total_modify_of_same {weight : RadixTreeNode → Int} {nodes : List RadixTreeNode} {id : Nat}
    (same : ∀ n : RadixTreeNode, weight { n with data := f n.data } = weight n) :
    total weight (PathTree.modify nodes id f) = total weight nodes := by
  simp only [total, PathTree.modify, List.map_map]
  congr 1
  refine List.map_congr_left fun n _ => ?_
  simp only [Function.comp_apply]
  split
  · exact same n
  · rfl

theorem Balanced.modify (h : t.Balanced evictable held) (id : Nat)
    (same : ∀ d, (f d).refCount = d.refCount) : (t.modify id f).Balanced evictable held := by
  refine { evictable := ?_, held := ?_, nonneg := ?_ }
  · rw [modify_nodes, total_modify_of_same fun n => by simp only [freeWeight, same]]
    exact h.evictable
  · rw [modify_nodes, total_modify_of_same fun n => by simp only [heldWeight, same]]
    exact h.held
  · intro x mem
    rw [modify_nodes] at mem
    rcases mem_modify.mp mem with ⟨hx, -⟩ | ⟨n, hn, -, rfl⟩
    · exact h.nonneg x hx
    · exact (h.nonneg n hn).trans_eq (same n.data).symm

theorem Locked.modify (h : t.Locked path locked) (id : Nat)
    (same : ∀ d, (f d).refCount = d.refCount) : (t.modify id f).Locked path locked := by
  refine { live := fun u mem => ?_, refs := fun x mem => ?_ }
  · rw [modify_nodes, live_modify]
    exact h.live u mem
  · rw [modify_nodes] at mem
    rcases mem_modify.mp mem with ⟨hx, -⟩ | ⟨n, hn, -, rfl⟩
    · exact h.refs x hx
    · exact (same n.data).trans (h.refs n hn)

/-- Splitting an edge keeps the counters: both halves have the references of the whole. -/
theorem Balanced.splitAt (h : t.Balanced evictable held) (ok : t.Ok page path)
    {pos : Nat} (mem : c ∈ t.nodes) (below : pos < c.key.length) :
    (t.splitAt c.id pos).1.Balanced evictable held := by
  refine { evictable := ?_, held := ?_, nonneg := ?_ }
  · rw [splitAt_nodes, ok.shaped.total_split mem, h.evictable]
    simp only [freeWeight, RadixData.head, RadixData.tail, List.length_take, List.length_drop]
    split <;> omega
  · rw [splitAt_nodes, ok.shaped.total_split mem, h.held]
    simp only [heldWeight, RadixData.head, RadixData.tail, List.length_take, List.length_drop]
    split <;> omega
  · intro x hx
    rw [splitAt_nodes] at hx
    rcases mem_split.mp hx with ⟨hx', -⟩ | ⟨n, hn, -, rfl | rfl⟩
    · exact h.nonneg x hx'
    · exact h.nonneg n hn
    · exact h.nonneg n hn

/-- The locks through the upper half of a split edge are those through the edge. -/
theorem locksBelow_head (ok : t.Ok page path) {pos : Nat} (mem : c ∈ t.nodes)
    (pages : page ≤ pos) (live : ∀ u ∈ locked, Live t.nodes u) :
    locksBelow path locked (path c.parent ++ c.key.take pos) =
      locksBelow path locked (path c.id) := by
  refine List.countP_congr fun u hu => ?_
  simp only [decide_eq_true_eq]
  constructor
  · intro through
    refine ok.shaped.edge mem (live u hu) (List.IsPrefix.trans ?_ through)
    exact (List.prefix_append_right_inj _).mpr (List.take_prefix_take_left pages)
  · intro through
    refine List.IsPrefix.trans ?_ through
    rw [ok.shaped.path_eq c mem]
    exact (List.prefix_append_right_inj _).mpr (List.take_prefix _ _)

theorem locksBelow_congr {path' : Nat → List Nat} (same : ∀ u ∈ locked, path' u = path u)
    (p : List Nat) : locksBelow path' locked p = locksBelow path locked p :=
  List.countP_congr fun u hu => by rw [same u hu]

theorem Locked.splitAt (h : t.Locked path locked) (ok : t.Ok page path)
    {pos : Nat} (mem : c ∈ t.nodes) (positive : 0 < pos) (whole : page ∣ pos) :
    (t.splitAt c.id pos).1.Locked (t.splitPath path c pos) locked := by
  have kept : ∀ u, Live t.nodes u → t.splitPath path c pos u = path u :=
    fun u live => Function.update_of_ne (live.ne_of_new ok.new) _ _
  have count : ∀ p, locksBelow (t.splitPath path c pos) locked p = locksBelow path locked p :=
    locksBelow_congr fun u hu => kept u (h.live u hu)
  refine { live := fun u hu => (live_splitAt mem).mpr (.inl (h.live u hu)), refs := ?_ }
  intro x hx
  rw [splitAt_nodes] at hx
  rw [count]
  rcases mem_split.mp hx with ⟨hx', -⟩ | ⟨n, hn, same, rfl | rfl⟩
  · rw [kept _ (live_of_mem hx')]
    exact h.refs x hx'
  · obtain rfl := ok.shaped.eq_of_id hn mem same
    simp only [splitPath, Function.update_self]
    rw [locksBelow_head ok mem (Nat.le_of_dvd positive whole) h.live]
    exact h.refs n hn
  · rw [kept _ (live_of_mem hn)]
    exact h.refs n hn

theorem Refined.balanced_locked {t' : RadixTree} {path' : Nat → List Nat}
    (r : Refined page t path t' path') (ok : t.Ok page path) (balanced : t.Balanced evictable held)
    (h : t.Locked path locked) : t'.Balanced evictable held ∧ t'.Locked path' locked := by
  refine (r.preserves ok (I := fun t path => t.Balanced evictable held ∧ t.Locked path locked)
    ⟨balanced, h⟩ ?_ ?_).2
  · intro t path id tic _ inv
    exact ⟨inv.1.modify id fun _ => rfl, inv.2.modify id fun _ => rfl⟩
  · intro t path c pos ok mem positive below whole inv
    exact ⟨inv.1.splitAt ok mem below, inv.2.splitAt ok mem positive whole⟩

/-- A new leaf without references adds its tokens to the evictable ones. -/
theorem Balanced.addChild (h : t.Balanced evictable held) {u : Nat} {key : List Nat} {d : RadixData}
    (unlocked : d.refCount = 0) :
    (t.addChild u key d).1.Balanced (evictable + key.length) held := by
  refine { evictable := ?_, held := ?_, nonneg := ?_ }
  · simp [h.evictable, freeWeight, unlocked]
  · simp [h.held, heldWeight, unlocked]
  · intro x hx
    rw [addChild_nodes] at hx
    rcases mem_concat hx with hx | hx
    · exact h.nonneg x hx
    · rw [hx]
      exact Int.le_of_eq unlocked.symm

theorem Locked.addChild (h : t.Locked path locked) (ok : t.Ok page path) {u : Nat}
    {key : List Nat} {d : RadixData} (unlocked : d.refCount = 0)
    (alone : ∀ v, Live t.nodes v → ¬ path u ++ key <+: path v) :
    (t.addChild u key d).1.Locked (Function.update path t.counter (path u ++ key)) locked := by
  have kept : ∀ v, Live t.nodes v → Function.update path t.counter (path u ++ key) v = path v :=
    fun v live => Function.update_of_ne (live.ne_of_new ok.new) _ _
  have count := locksBelow_congr fun v hv => kept v (h.live v hv)
  refine { live := fun v hv => ?_, refs := ?_ }
  · rcases h.live v hv with rfl | ⟨x, hx, rfl⟩
    · exact live_root _
    · exact live_of_mem (List.mem_append_left _ hx)
  · intro x hx
    rw [addChild_nodes] at hx
    rw [count]
    rcases mem_concat hx with hx | rfl
    · rw [kept _ (live_of_mem hx)]
      exact h.refs x hx
    · rw [Function.update_self]
      have none : locksBelow path locked (path u ++ key) = 0 :=
        List.countP_eq_zero.mpr fun v hv => by simpa using alone v (h.live v hv)
      rw [none]
      exact unlocked

/-- Taking off a leaf without references takes its tokens off the evictable ones. -/
theorem Balanced.unlink (h : t.Balanced evictable held) (ok : t.Ok page path) {n : RadixTreeNode}
    (mem : n ∈ t.nodes) (unlocked : n.data.refCount = 0) :
    (t.unlink n).Balanced (evictable - n.key.length) held := by
  refine { evictable := ?_, held := ?_, nonneg := ?_ }
  · rw [unlink_nodes, ok.shaped.total_unlink mem, h.evictable, freeWeight, if_pos unlocked]
  · rw [unlink_nodes, ok.shaped.total_unlink mem, h.held, heldWeight, if_neg (by omega)]
    omega
  · exact fun x hx => h.nonneg x (mem_unlink.mp hx).1

theorem Locked.unlink (h : t.Locked path locked) {n : RadixTreeNode} (mem : n ∈ t.nodes)
    (unlocked : n.data.refCount = 0) : (t.unlink n).Locked path locked := by
  refine { live := fun u hu => ?_, refs := fun x hx => h.refs x (mem_unlink.mp hx).1 }
  have none := h.refs n mem
  rw [unlocked, eq_comm, Int.natCast_eq_zero] at none
  have away := List.countP_eq_zero.mp none u hu
  rcases h.live u hu with rfl | ⟨x, hx, rfl⟩
  · exact live_root _
  · refine live_of_mem (mem_unlink.mpr ⟨hx, fun same => ?_⟩)
    rw [same] at away
    simp at away

end RadixTree

/-! ## Locking and unlocking -/

namespace SizedTree

open RadixTree

variable {page : Nat} {path : Nat → List Nat} {locked : List Nat} {s : SizedTree}

structure Accounted (page : Nat) (s : SizedTree) (path : Nat → List Nat) (locked : List Nat) :
    Prop where
  ok : s.tree.Ok page path
  balanced : s.tree.Balanced s.evictable s.held
  locks : s.tree.Locked path locked

theorem accounted_empty (positive : 0 < page) : empty.Accounted page (fun _ => []) [] :=
  { ok := ok_empty positive, balanced := balanced_empty, locks := locked_empty _ }

variable {n : RadixTreeNode}

theorem balanced_ref (ok : s.tree.Ok page path) (h : s.tree.Balanced s.evictable s.held)
    (mem : n ∈ s.tree.nodes) :
    (s.ref n).tree.Balanced (s.ref n).evictable (s.ref n).held := by
  have nonneg := h.nonneg n mem
  refine { evictable := ?_, held := ?_, nonneg := ?_ }
  · simp only [ref, modify_nodes]
    rw [ok.shaped.total_modify mem, ← h.evictable]
    simp only [freeWeight]
    split <;> split <;> omega
  · simp only [ref, modify_nodes]
    rw [ok.shaped.total_modify mem, ← h.held]
    simp only [heldWeight]
    split <;> split <;> split <;> omega
  · intro x hx
    simp only [ref, modify_nodes] at hx
    rcases mem_modify.mp hx with ⟨hx', -⟩ | ⟨m, hm, -, rfl⟩
    · exact h.nonneg x hx'
    · have least := h.nonneg m hm
      simp only
      omega

/-- One reference less keeps the counters, and there is one to give back. -/
theorem balanced_unref (ok : s.tree.Ok page path) (h : s.tree.Balanced s.evictable s.held)
    (mem : n ∈ s.tree.nodes) (some_ref : 0 < n.data.refCount) :
    ∃ s', s.unref n = some s' ∧ s'.tree.Balanced s'.evictable s'.held ∧
      s'.tree = s.tree.modify n.id fun d =>
        { d with
          refCount := d.refCount - 1 } := by
  have enough : 0 ≤ n.data.refCount - 1 := by omega
  refine ⟨_, if_pos enough, { evictable := ?_, held := ?_, nonneg := ?_ }, rfl⟩
  · simp only [modify_nodes]
    rw [ok.shaped.total_modify mem, ← h.evictable]
    simp only [freeWeight]
    split <;> split <;> omega
  · simp only [modify_nodes]
    rw [ok.shaped.total_modify mem, ← h.held]
    simp only [heldWeight, if_pos some_ref]
    split <;> split <;> omega
  · intro x hx
    simp only [modify_nodes] at hx
    rcases mem_modify.mp hx with ⟨hx', -⟩ | ⟨m, hm, same, rfl⟩
    · exact h.nonneg x hx'
    · obtain rfl := ok.shaped.eq_of_id hm mem same
      exact enough

theorem foldl_ref {nodes : List RadixTreeNode} (ok : s.tree.Ok page path)
    (h : s.tree.Balanced s.evictable s.held) (sub : ∀ n ∈ nodes, n ∈ s.tree.nodes)
    (distinct : (nodes.map (·.id)).Nodup) :
    (nodes.foldl ref s).tree.Ok page path ∧
      (nodes.foldl ref s).tree.Balanced (nodes.foldl ref s).evictable (nodes.foldl ref s).held ∧
      (nodes.foldl ref s).tree.counter = s.tree.counter ∧
      (nodes.foldl ref s).tree.nodes = modifyAll s.tree.nodes (nodes.map (·.id)) fun d =>
        { d with
          refCount := d.refCount + 1 } := by
  induction nodes generalizing s with
  | nil => exact ⟨ok, h, rfl, (modifyAll_nil _ _).symm⟩
  | cons n nodes ih =>
    rw [List.map_cons, List.nodup_cons] at distinct
    have mem := sub n (by simp)
    have later : ∀ m ∈ nodes, m ∈ (s.ref n).tree.nodes := by
      intro m hm
      simp only [ref, modify_nodes]
      refine mem_modify.mpr (.inl ⟨sub m (by simp [hm]), fun same => distinct.1 ?_⟩)
      rw [← same]
      exact List.mem_map_of_mem hm
    obtain ⟨ok', h', counter, result⟩ :=
      ih (s := s.ref n) (ok.modify n.id fun _ => rfl) (balanced_ref ok h mem) later distinct.2
    refine ⟨ok', h', counter, ?_⟩
    rw [List.foldl_cons, result, List.map_cons, modifyAll_cons _ distinct.1]
    rfl

theorem foldlM_unref {nodes : List RadixTreeNode} (ok : s.tree.Ok page path)
    (h : s.tree.Balanced s.evictable s.held) (sub : ∀ n ∈ nodes, n ∈ s.tree.nodes)
    (some_ref : ∀ n ∈ nodes, 0 < n.data.refCount) (distinct : (nodes.map (·.id)).Nodup) :
    ∃ s', nodes.foldlM unref s = some s' ∧ s'.tree.Ok page path ∧
      s'.tree.Balanced s'.evictable s'.held ∧ s'.tree.counter = s.tree.counter ∧
      s'.tree.nodes = modifyAll s.tree.nodes (nodes.map (·.id)) fun d =>
        { d with
          refCount := d.refCount - 1 } := by
  induction nodes generalizing s with
  | nil => exact ⟨s, rfl, ok, h, rfl, (modifyAll_nil _ _).symm⟩
  | cons n nodes ih =>
    rw [List.map_cons, List.nodup_cons] at distinct
    have mem := sub n (by simp)
    obtain ⟨s₁, done, h₁, tree₁⟩ := balanced_unref ok h mem (some_ref n (by simp))
    have ok₁ : s₁.tree.Ok page path := tree₁ ▸ ok.modify n.id fun _ => rfl
    have later : ∀ m ∈ nodes, m ∈ s₁.tree.nodes := by
      intro m hm
      rw [tree₁, modify_nodes]
      refine mem_modify.mpr (.inl ⟨sub m (by simp [hm]), fun same => distinct.1 ?_⟩)
      rw [← same]
      exact List.mem_map_of_mem hm
    obtain ⟨s', done', ok', h', counter, result⟩ :=
      ih ok₁ h₁ later (fun m hm => some_ref m (by simp [hm])) distinct.2
    refine ⟨s', by simp [done, done'], ok', h', counter.trans (by rw [tree₁]; rfl), ?_⟩
    rw [result, List.map_cons, modifyAll_cons _ distinct.1, tree₁]
    rfl

theorem mem_up_ids (ok : s.tree.Ok page path) {u : Nat} (live : Live s.tree.nodes u)
    (mem : n ∈ s.tree.nodes) :
    n.id ∈ (s.tree.up u).map (·.id) ↔ path n.id <+: path u := by
  have above : ∀ m, m ∈ s.tree.up u ↔ m ∈ s.tree.nodes ∧ path m.id <+: path u :=
    fun m => (ok.climb live).mem_iff ok.shaped
  constructor
  · intro inside
    obtain ⟨m, hm, same⟩ := List.mem_map.mp inside
    rw [← same]
    exact ((above m).mp hm).2
  · exact fun through => List.mem_map_of_mem ((above n).mpr ⟨mem, through⟩)

theorem Accounted.perm (h : s.Accounted page path locked) {locked' : List Nat}
    (same : locked.Perm locked') : s.Accounted page path locked' := by
  refine { ok := h.ok, balanced := h.balanced, locks := { live := ?_, refs := ?_ } }
  · exact fun u hu => h.locks.live u (same.mem_iff.mpr hu)
  · intro n hn
    rw [h.locks.refs n hn, locksBelow, locksBelow, same.countP_eq]

theorem Accounted.lock (h : s.Accounted page path locked) {u : Nat}
    (live : Live s.tree.nodes u) :
    ((s.tree.up u).foldl ref s).Accounted page path (u :: locked) ∧
      ((s.tree.up u).foldl ref s).tree.counter = s.tree.counter ∧
      ((s.tree.up u).foldl ref s).tree.nodes =
        modifyAll s.tree.nodes ((s.tree.up u).map (·.id)) fun d =>
          { d with
            refCount := d.refCount + 1 } := by
  have climb := h.ok.climb live
  obtain ⟨ok', balanced', counter, result⟩ :=
    foldl_ref h.ok h.balanced climb.subset (climb.distinct h.ok.shaped)
  refine ⟨{ ok := ok', balanced := balanced', locks := { live := ?_, refs := ?_ } }, counter,
    result⟩
  · intro v hv
    rw [result, modifyAll, live_mapData]
    rcases List.mem_cons.mp hv with rfl | hv
    · exact live
    · exact h.locks.live v hv
  · intro x hx
    rw [result] at hx
    obtain ⟨n, hn, rfl⟩ := mem_mapData.mp hx
    have count := h.locks.refs n hn
    simp only [mem_up_ids h.ok live hn, locksBelow, List.countP_cons] at count ⊢
    by_cases through : path n.id <+: path u
    · simp only [through, decide_true, if_true, count]
      omega
    · simp only [through, decide_false, Bool.false_eq_true, if_false, count]
      omega

theorem Accounted.unlock (h : s.Accounted page path locked) {u : Nat} (mem : u ∈ locked) :
    ∃ s', (s.tree.up u).foldlM unref s = some s' ∧ s'.Accounted page path (locked.erase u) ∧
      s'.tree.counter = s.tree.counter ∧
      s'.tree.nodes = modifyAll s.tree.nodes ((s.tree.up u).map (·.id)) fun d =>
        { d with
          refCount := d.refCount - 1 } := by
  have live := h.locks.live u mem
  have climb := h.ok.climb live
  have count : ∀ n ∈ s.tree.nodes, n.data.refCount = (locksBelow path (locked.erase u) (path n.id) :
      Nat) + if path n.id <+: path u then 1 else 0 := by
    intro n hn
    rw [h.locks.refs n hn, locksBelow, (List.perm_cons_erase mem).countP_eq, List.countP_cons]
    by_cases through : path n.id <+: path u
    · simp [through, locksBelow]
    · simp [through, locksBelow]
  have some_ref : ∀ n ∈ s.tree.up u, 0 < n.data.refCount := by
    intro n hn
    obtain ⟨hn', through⟩ := (climb.mem_iff h.ok.shaped).mp hn
    rw [count n hn', if_pos through]
    omega
  obtain ⟨s', done, ok', balanced', counter, result⟩ :=
    foldlM_unref h.ok h.balanced climb.subset some_ref (climb.distinct h.ok.shaped)
  refine ⟨s', done, { ok := ok', balanced := balanced', locks := { live := ?_, refs := ?_ } },
    counter, result⟩
  · intro v hv
    rw [result, modifyAll, live_mapData]
    exact h.locks.live v (List.mem_of_mem_erase hv)
  · intro x hx
    rw [result] at hx
    obtain ⟨n, hn, rfl⟩ := mem_mapData.mp hx
    have before := count n hn
    simp only [mem_up_ids h.ok live hn]
    by_cases through : path n.id <+: path u
    · simp only [if_pos through] at before ⊢
      omega
    · simp only [if_neg through] at before ⊢
      omega

end SizedTree

end FreeSwarm.KvCache
