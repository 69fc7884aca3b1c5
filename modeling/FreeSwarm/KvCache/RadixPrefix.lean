import FreeSwarm.KvCache.RadixEvict

/-!
# The calls of the plain prefix cache

What one call of match, insert, lock or unlock does: to the tree, to the slots it holds and to the
locks.
-/

namespace FreeSwarm.KvCache

open FreeSwarm.Foundation FreeSwarm.Foundation.PathTree

namespace RadixTree

variable {page : Nat} {t t' : RadixTree} {path path' : Nat → List Nat}

def slots (t : RadixTree) : List Int := t.nodes.flatMap fun n => n.data.value

theorem slots_modify (t : RadixTree) (id : Nat) {f : RadixData → RadixData}
    (kept : ∀ d, (f d).value = d.value) : (t.modify id f).slots = t.slots := by
  simp only [slots, modify_nodes, PathTree.modify, List.flatMap_map]
  refine List.flatMap_congr fun n _ => ?_
  split
  · exact kept n.data
  · rfl

theorem slots_splitAt (ok : t.Ok page path) {c : RadixTreeNode} {pos : Nat} (mem : c ∈ t.nodes) :
    (t.splitAt c.id pos).1.slots = t.slots := by
  obtain ⟨left, right, around, hleft, hright⟩ := ok.shaped.exists_around mem
  simp only [slots, splitAt_nodes]
  rw [around, split_around hleft hright]
  simp [RadixData.head, RadixData.tail, RadixData.fresh, ← List.append_assoc]

theorem Refined.slots_eq (r : Refined page t path t' path') (ok : t.Ok page path) :
    t'.slots = t.slots := by
  refine (r.preserves ok (I := fun t' _ => t'.slots = t.slots) rfl ?_ ?_).2
  · intro t₁ _ id tic _ same
    exact (slots_modify (f := fun d => { d with timestamp := tic }) t₁ id fun _ => rfl).trans same
  · intro t₁ path₁ c pos ok₁ mem _ _ _ same
    exact (slots_splitAt ok₁ mem).trans same

theorem slots_addChild (t : RadixTree) (u : Nat) (key : List Nat) (d : RadixData) :
    (t.addChild u key d).1.slots = t.slots ++ d.value := by
  simp only [slots, addChild, List.flatMap_append, List.flatMap_singleton]

def shape (n : RadixTreeNode) : Nat × Nat × List Nat × List Int :=
  (n.id, n.parent, n.key, n.data.value)

def SameShape (t t' : RadixTree) : Prop := t'.nodes.map shape = t.nodes.map shape

theorem sameShape_modifyAll {ids : List Nat} {f : RadixData → RadixData}
    (same : t'.nodes = modifyAll t.nodes ids f) (kept : ∀ d, (f d).value = d.value) :
    SameShape t t' := by
  rw [SameShape, same, modifyAll, mapData, List.map_map]
  refine List.map_congr_left fun n _ => ?_
  rw [Function.comp_apply, shape, shape]
  split
  · rw [kept]
  · rfl

namespace SameShape

variable (h : SameShape t t')
include h

theorem live (u : Nat) : Live t'.nodes u ↔ Live t.nodes u := by
  have ids : ∀ t : RadixTree, Live t.nodes u ↔ u = 0 ∨ u ∈ (t.nodes.map shape).map Prod.fst := by
    intro t
    rw [List.map_map, Live]
    exact or_congr_right List.mem_map.symm
  rw [ids, ids, h]

theorem slots : t'.slots = t.slots := by
  have values : ∀ t : RadixTree, t.slots = (t.nodes.map shape).flatMap fun s => s.2.2.2 := by
    intro t
    rw [List.flatMap_map]
    rfl
  rw [values, values, h]

theorem total_eq {weight : RadixTreeNode → Int} {weight' : Nat × Nat × List Nat × List Int → Int}
    (of_shape : ∀ n, weight n = weight' (shape n)) : total weight t'.nodes = total weight t.nodes := by
  have weights : ∀ t : RadixTree, total weight t.nodes = ((t.nodes.map shape).map weight').sum := by
    intro t
    rw [total, List.map_map, List.map_congr_left fun n _ => of_shape n]
    rfl
  rw [weights, weights, h]

end SameShape

/-! ## What is locked -/

/-- The tokens of the nodes below which a lock is held. -/
def cover (t : RadixTree) (path : Nat → List Nat) (locked : List Nat) : Int :=
  total (fun n => if 0 < locksBelow path locked (path n.id) then n.key.length else 0) t.nodes

theorem Balanced.held_eq {evictable held : Int} {locked : List Nat}
    (h : t.Balanced evictable held) (locks : t.Locked path locked) : held = t.cover path locked := by
  rw [h.held, cover, total, total]
  congr 1
  refine List.map_congr_left fun n mem => ?_
  rw [heldWeight, locks.refs n mem]
  exact if_congr Int.natCast_pos rfl rfl

theorem SameShape.cover_eq (h : SameShape t t') (path : Nat → List Nat) (locked : List Nat) :
    t'.cover path locked = t.cover path locked :=
  @SameShape.total_eq _ _ h _ (fun s =>
    if 0 < locksBelow path locked (path s.1) then s.2.2.1.length else 0) fun _ => rfl

theorem Ok.total_along (ok : t.Ok page path) {u : Nat} (live : Live t.nodes u) :
    total (fun n : RadixTreeNode => if path n.id <+: path u then n.key.length else 0) t.nodes =
      (path u).length := by
  have climb := ok.climb live
  have perm : (t.nodes.filter fun n => decide (path n.id <+: path u)).Perm (t.up u) := by
    refine (List.perm_ext_iff_of_nodup ((List.Nodup.of_map _ ok.shaped.distinct).filter _)
      (.of_map _ (climb.distinct ok.shaped))).mpr fun n => ?_
    rw [List.mem_filter, climb.mem_iff ok.shaped, decide_eq_true_eq]
  have sum : ∀ nodes : List RadixTreeNode,
      total (fun n : RadixTreeNode => if path n.id <+: path u then (n.key.length : Int) else 0)
        nodes = (((nodes.filter fun n => decide (path n.id <+: path u)).map fun n =>
          n.key.length).sum : Nat) := by
    intro nodes
    induction nodes with
    | nil => rfl
    | cons n nodes ih =>
      rw [total] at ih
      rw [total, List.map_cons, List.sum_cons, ih]
      by_cases along : path n.id <+: path u
      · rw [if_pos along, List.filter_cons_of_pos (by simpa using along), List.map_cons,
          List.sum_cons]
        push_cast
        rfl
      · rw [if_neg along, List.filter_cons_of_neg (by simpa using along), Int.zero_add]
  rw [sum, (perm.map _).sum_eq, ← climb.keys ok.shaped, List.length_flatMap, List.map_reverse,
    List.sum_reverse]

theorem Ok.cover_extend (ok : t.Ok page path) {u v : Nat} (hu : Live t.nodes u)
    (hv : Live t.nodes v) (along : path u <+: path v) (rest : List Nat) :
    t.cover path (v :: rest) + (path u).length ≤ t.cover path (u :: rest) + (path v).length := by
  rw [← ok.total_along hu, ← ok.total_along hv, cover, cover]
  have each : ∀ nodes : List RadixTreeNode,
      total (fun n => if 0 < locksBelow path (v :: rest) (path n.id) then n.key.length else 0) nodes +
        total (fun n : RadixTreeNode => if path n.id <+: path u then n.key.length else 0) nodes ≤
      total (fun n => if 0 < locksBelow path (u :: rest) (path n.id) then n.key.length else 0) nodes +
        total (fun n : RadixTreeNode => if path n.id <+: path v then n.key.length else 0) nodes := by
    intro nodes
    induction nodes with
    | nil => exact le_rfl
    | cons n nodes ih =>
      simp only [total, List.map_cons, List.sum_cons] at ih ⊢
      have down : path n.id <+: path u → path n.id <+: path v := fun above => above.trans along
      have here : (if 0 < locksBelow path (v :: rest) (path n.id) then (n.key.length : Int) else 0) +
          (if path n.id <+: path u then (n.key.length : Int) else 0) ≤
          (if 0 < locksBelow path (u :: rest) (path n.id) then (n.key.length : Int) else 0) +
          (if path n.id <+: path v then (n.key.length : Int) else 0) := by
        simp only [locksBelow, List.countP_cons, decide_eq_true_eq]
        by_cases hu : path n.id <+: path u
        · simp [hu, down hu]
        · by_cases hv : path n.id <+: path v
          · simp only [hu, hv, if_true, if_false]
            split <;> split <;> omega
          · simp [hu, hv]
      omega
  exact each t.nodes

theorem cover_cons (t : RadixTree) (path : Nat → List Nat) (u : Nat) (rest : List Nat) :
    t.cover path rest ≤ t.cover path (u :: rest) := by
  have each : ∀ nodes : List RadixTreeNode,
      total (fun n => if 0 < locksBelow path rest (path n.id) then n.key.length else 0) nodes ≤
      total (fun n => if 0 < locksBelow path (u :: rest) (path n.id) then n.key.length else 0)
        nodes := by
    intro nodes
    induction nodes with
    | nil => exact le_rfl
    | cons n nodes ih =>
      simp only [total, List.map_cons, List.sum_cons] at ih ⊢
      have here : (if 0 < locksBelow path rest (path n.id) then (n.key.length : Int) else 0) ≤
          (if 0 < locksBelow path (u :: rest) (path n.id) then (n.key.length : Int) else 0) := by
        have more : locksBelow path rest (path n.id) ≤ locksBelow path (u :: rest) (path n.id) :=
          List.Sublist.countP_le (List.sublist_cons_self u rest)
        by_cases held : 0 < locksBelow path rest (path n.id)
        · rw [if_pos held, if_pos (held.trans_le more)]
        · rw [if_neg held]
          split <;> omega
      omega
  exact each t.nodes

theorem Balanced.length_slots {evictable held : Int} (h : t.Balanced evictable held)
    (ok : t.Ok page path) : evictable + held = t.slots.length := by
  have each : ∀ nodes : List RadixTreeNode, (∀ n ∈ nodes, 0 ≤ n.data.refCount) →
      (∀ n ∈ nodes, n.data.value.length = n.key.length) →
      total freeWeight nodes + total heldWeight nodes =
        ((nodes.flatMap fun n => n.data.value).length : Int) := by
    intro nodes nonneg values
    induction nodes with
    | nil => rfl
    | cons n nodes ih =>
      have rest := ih (fun x hx => nonneg x (List.mem_cons_of_mem _ hx)) fun x hx =>
        values x (List.mem_cons_of_mem _ hx)
      have here := nonneg n List.mem_cons_self
      have weight : freeWeight n + heldWeight n = n.data.value.length := by
        rw [freeWeight, heldWeight, values n List.mem_cons_self]
        split <;> split <;> omega
      rw [total, total] at rest
      rw [total, total, List.map_cons, List.map_cons, List.sum_cons, List.sum_cons,
        List.flatMap_cons, List.length_append]
      push_cast
      omega
  rw [h.evictable, h.held]
  exact each t.nodes h.nonneg ok.values

end RadixTree

namespace RadixPrefixCache

open RadixTree

variable {c : RadixPrefixCache} {path : Nat → List Nat} {locked : List Nat}

theorem matchPrefix_spec (h : c.sized.Accounted c.pageSize path locked) (ids : List Nat)
    (tic : Nat) :
    ∃ path', (c.matchPrefix ids tic).1.pageSize = c.pageSize ∧
      (c.matchPrefix ids tic).1.sized.Accounted c.pageSize path' locked ∧
      Arrived c.pageSize c.tree path ids (c.matchPrefix ids tic).1.tree path'
        (c.matchPrefix ids tic).2.node (c.matchPrefix ids tic).2.cachedLen := by
  obtain ⟨path', arrived⟩ := walk_spec h.ok tic ids
  obtain ⟨balanced, locks⟩ := arrived.refined.balanced_locked h.ok h.balanced h.locks
  exact ⟨path', rfl, { ok := arrived.ok h.ok, balanced := balanced, locks := locks }, arrived⟩

/-- What an insert does: the key's whole pages are a path of the tree, the slots of the pages that
were not cached join it, and old nodes keep their paths. -/
structure Inserted (c : RadixPrefixCache) (path : Nat → List Nat) (locked : List Nat)
    (ids : List Nat) (indices : List Int) (c' : RadixPrefixCache) (path' : Nat → List Nat)
    (prefixLen : Nat) (handle : RadixCacheHandle) : Prop where
  pageSize : c'.pageSize = c.pageSize
  accounted : c'.sized.Accounted c.pageSize path' locked
  kept : ∀ u, Live c.tree.nodes u → Live c'.tree.nodes u ∧ path' u = path u
  cachedLen : handle.cachedLen = alignDown ids.length c.pageSize
  live : Live c'.tree.nodes handle.node
  along : path' handle.node = ids.take (alignDown ids.length c.pageSize)
  inside : prefixLen ≤ alignDown ids.length c.pageSize
  whole : c.pageSize ∣ prefixLen
  reaches : ∀ u, Live c.tree.nodes u → path u <+: ids.take (alignDown ids.length c.pageSize) →
    (path u).length ≤ prefixLen
  held : c'.protectedSize = c.protectedSize
  slots : c'.tree.slots = c.tree.slots ++
    (indices.take (alignDown ids.length c.pageSize)).drop prefixLen

/-- The tokens an insert finds cached. -/
def cachedBefore (c : RadixPrefixCache) (ids : List Nat) (tic : Nat) : Nat :=
  (c.tree.walk c.pageSize tic (ids.take (alignDown ids.length c.pageSize))).2.2

/-- An insert succeeds when there is a slot for each token of the whole pages, or nothing to
insert. -/
theorem insertPrefix_spec (h : c.sized.Accounted c.pageSize path locked) {ids : List Nat}
    {indices : List Int} (tic now : Nat)
    (slotted : c.cachedBefore ids tic ≠ alignDown ids.length c.pageSize →
      alignDown ids.length c.pageSize ≤ indices.length) :
    ∃ c' path' prefixLen handle,
      c.insertPrefix ids indices tic now = some (c', prefixLen, handle) ∧
      Inserted c path locked ids indices c' path' prefixLen handle := by
  rw [cachedBefore] at slotted
  set insertLen := alignDown ids.length c.pageSize with hlen
  have short : insertLen ≤ ids.length := alignDown_le _ _
  have length_ids : (ids.take insertLen).length = insertLen := by
    rw [List.length_take, Nat.min_eq_left short]
  obtain ⟨path', arrived⟩ := walk_spec h.ok tic (ids.take insertLen)
  obtain ⟨balanced, locks⟩ := arrived.refined.balanced_locked h.ok h.balanced h.locks
  have ok' := arrived.ok h.ok
  have slots' := arrived.refined.slots_eq h.ok
  obtain ⟨-, kept⟩ := arrived.refined.live h.ok
  have whole := arrived.whole h.ok
  have inside := arrived.inside
  rw [length_ids] at inside
  have reaches : ∀ u, Live c.tree.nodes u → path u <+: ids.take insertLen →
      (path u).length ≤ (c.tree.walk c.pageSize tic (ids.take insertLen)).2.2 :=
    fun u live along => arrived.reaches h.ok live along
  set r := c.tree.walk c.pageSize tic (ids.take insertLen) with hr
  by_cases more : r.2.2 ≠ insertLen
  · have length_indices : (indices.take insertLen).length = insertLen := by
      rw [List.length_take, Nat.min_eq_left (slotted more)]
    have lengths : ((ids.take insertLen).drop r.2.2).length =
        ((indices.take insertLen).drop r.2.2).length := by
      rw [List.length_drop, List.length_drop, length_ids, length_indices]
    have hang := arrived.hang h.ok (length_ids.symm ▸ dvd_alignDown _ _)
      (by rw [length_ids]; exact more)
    have added := ok'.addChild (d := RadixData.fresh ((indices.take insertLen).drop r.2.2) now)
      arrived.live hang.nonempty hang.whole lengths.symm hang.apart
    set new := RadixData.fresh ((indices.take insertLen).drop r.2.2) now with hnew
    set key := (ids.take insertLen).drop r.2.2 with hkey
    refine ⟨{ c with
        sized := { tree := (r.1.addChild r.2.1 key new).1
                   evictable := c.sized.evictable + key.length
                   held := c.sized.held } },
      Function.update path' r.1.counter (path' r.2.1 ++ key), r.2.2,
      { cachedLen := insertLen, node := r.1.counter }, ?_,
      { pageSize := rfl, accounted := ?_, kept := ?_, cachedLen := rfl, live := ?_, along := ?_,
        inside := inside, whole := whole, reaches := reaches, held := rfl,
        slots := ?_ }⟩
    · simp only [insertPrefix, ← hlen, ← hr]
      rw [if_pos more, if_pos lengths]
      rfl
    · exact { ok := added, balanced := balanced.addChild rfl,
              locks := locks.addChild ok' rfl hang.alone }
    · intro u live
      obtain ⟨live', same⟩ := kept u live
      refine ⟨?_, ?_⟩
      · rcases live' with rfl | ⟨x, hx, rfl⟩
        · exact live_root _
        · exact live_of_mem (List.mem_append_left _ hx)
      · rw [Function.update_of_ne (live'.ne_of_new ok'.new), same]
    · exact .inr ⟨_, List.mem_append_right _ (List.mem_singleton.mpr rfl), rfl⟩
    · rw [Function.update_self]
      exact hang.along
    · change (r.1.addChild _ _ _).1.slots = _
      rw [slots_addChild, slots']
      rfl
  · have complete : r.2.2 = insertLen := not_not.mp more
    refine ⟨c.setTree r.1, path', r.2.2, { cachedLen := insertLen, node := r.2.1 }, ?_,
      { pageSize := rfl, accounted := ?_, kept := kept, cachedLen := rfl, live := arrived.live,
        along := ?_, inside := inside, whole := whole, reaches := reaches, held := rfl,
        slots := ?_ }⟩
    · simp only [insertPrefix, ← hlen, ← hr]
      rw [if_neg more]
    · exact { ok := ok', balanced := balanced, locks := locks }
    · rw [arrived.along, complete, List.take_take, Nat.min_self]
    · have nothing : (indices.take insertLen).drop r.2.2 = [] := by
        rw [complete]
        exact List.drop_eq_nil_of_le (List.length_take_le _ _)
      change r.1.slots = _
      rw [slots', nothing, List.append_nil]

variable {handle : RadixCacheHandle}

theorem inserted_of_some (h : c.sized.Accounted c.pageSize path locked) {ids : List Nat}
    {indices : List Int} {tic now prefixLen : Nat} {c' : RadixPrefixCache}
    (done : c.insertPrefix ids indices tic now = some (c', prefixLen, handle)) :
    ∃ path', Inserted c path locked ids indices c' path' prefixLen handle := by
  have slotted : c.cachedBefore ids tic ≠ alignDown ids.length c.pageSize →
      alignDown ids.length c.pageSize ≤ indices.length := by
    intro more
    by_contra fewer
    rw [cachedBefore] at more
    simp only [insertPrefix] at done
    rw [if_pos more, if_neg] at done
    · exact absurd done (by simp)
    · obtain ⟨_, arrived⟩ := walk_spec h.ok tic (ids.take (alignDown ids.length c.pageSize))
      have inside := arrived.inside
      have short := alignDown_le ids.length c.pageSize
      change (c.tree.walk c.pageSize tic _).2.2 ≤ _ at inside
      generalize (c.tree.walk c.pageSize tic _).2.2 = pos at more inside ⊢
      simp only [List.length_drop, List.length_take] at inside ⊢
      omega
  obtain ⟨c₁, path', n, handle', done', out⟩ := insertPrefix_spec h tic now slotted
  obtain ⟨rfl, rfl, rfl⟩ : c₁ = c' ∧ n = prefixLen ∧ handle' = handle := by
    rw [done] at done'
    simpa [eq_comm] using done'
  exact ⟨path', out⟩

theorem lock_spec (h : c.sized.Accounted c.pageSize path locked)
    (live : Live c.tree.nodes handle.node) :
    ∃ c', c.lockHandle handle false = some c' ∧ c'.pageSize = c.pageSize ∧
      c'.sized.Accounted c.pageSize path (handle.node :: locked) ∧
      SameShape c.tree c'.tree := by
  obtain ⟨accounted, -, nodes⟩ := h.lock live
  exact ⟨{ c with
      sized := (c.tree.up handle.node).foldl SizedTree.ref c.sized },
    by rw [lockHandle, if_neg Bool.false_ne_true], rfl, accounted,
    sameShape_modifyAll nodes fun _ => rfl⟩

theorem unlock_spec (h : c.sized.Accounted c.pageSize path locked)
    (mem : handle.node ∈ locked) :
    ∃ c', c.lockHandle handle true = some c' ∧ c'.pageSize = c.pageSize ∧
      c'.sized.Accounted c.pageSize path (locked.erase handle.node) ∧
      SameShape c.tree c'.tree := by
  obtain ⟨s', done, accounted, -, nodes⟩ := h.unlock mem
  refine ⟨{ c with
      sized := s' }, ?_, rfl, accounted, sameShape_modifyAll nodes fun _ => rfl⟩
  rw [lockHandle, if_pos rfl, done, Option.map_some]

end RadixPrefixCache

end FreeSwarm.KvCache
