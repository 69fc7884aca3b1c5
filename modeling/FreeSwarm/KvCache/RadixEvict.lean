import Mathlib.Data.Finset.Max
import FreeSwarm.KvCache.RadixLocks

/-!
# Eviction from the plain prefix cache

While the evictable counter is positive there is a leaf without references, so the loop never runs
dry before it has freed what was asked for. It takes off nodes without references only, and returns
their slots.
-/

namespace FreeSwarm.KvCache

open FreeSwarm.Foundation FreeSwarm.Foundation.PathTree

namespace SizedTree

variable {page : Nat} {path : Nat → List Nat} {locked : List Nat} {s : SizedTree}

theorem total_eq_zero {weight : RadixTreeNode → Int} {nodes : List RadixTreeNode}
    (zero : ∀ n ∈ nodes, weight n = 0) : total weight nodes = 0 := by
  induction nodes with
  | nil => rfl
  | cons n nodes ih =>
    rw [total_cons, zero n (by simp), ih fun m hm => zero m (by simp [hm]), Int.add_zero]

/-- As long as tokens are evictable, some leaf has no references: the one with the longest path
among the nodes without references. -/
theorem Accounted.exists_free_leaf (h : s.Accounted page path locked) (some_free : 0 < s.evictable) :
    ∃ n ∈ s.tree.nodes, isLeaf s.tree.nodes n.id = true ∧ n.data.refCount = 0 := by
  have exists_free : ∃ n ∈ s.tree.nodes, n.data.refCount = 0 := by
    by_contra none
    push Not at none
    have zero : total freeWeight s.tree.nodes = 0 :=
      total_eq_zero fun n hn => if_neg (none n hn)
    rw [h.balanced.evictable, zero] at some_free
    omega
  obtain ⟨a, ha, free⟩ := exists_free
  obtain ⟨n, hn, longest⟩ := Finset.exists_max_image
    (s.tree.nodes.filter fun n : RadixTreeNode => decide (n.data.refCount = 0)).toFinset
    (fun n => (path n.id).length) ⟨a, by simp [ha, free]⟩
  simp only [List.mem_toFinset, List.mem_filter, decide_eq_true_eq] at hn longest
  refine ⟨n, hn.1, isLeaf_iff.mpr fun m hm child => ?_, hn.2⟩
  have below : path n.id <+: path m.id := by
    rw [h.ok.shaped.path_eq m hm, child]
    exact List.prefix_append _ _
  have most := h.locks.refCount_anti hn.1 hm below
  have least := h.balanced.nonneg m hm
  have shorter := longest m ⟨hm, by omega⟩
  have longer := h.ok.shaped.length_path hm
  have segment := h.ok.shaped.page_le hm
  have positive := h.ok.shaped.positive
  rw [child] at longer
  omega

theorem Accounted.unlink (h : s.Accounted page path locked) {n : RadixTreeNode}
    (mem : n ∈ s.tree.nodes) (leaf : isLeaf s.tree.nodes n.id = true)
    (free : n.data.refCount = 0) :
    Accounted page
      { s with
        tree := s.tree.unlink n
        evictable := s.evictable - n.key.length } path locked :=
  { ok := h.ok.unlink mem leaf, balanced := h.balanced.unlink h.ok mem free,
    locks := h.locks.unlink mem free }

end SizedTree

theorem perm_unlink {page : Nat} {nodes : List RadixTreeNode} {path : Nat → List Nat}
    (h : Shaped page nodes path) {n : RadixTreeNode} (mem : n ∈ nodes) :
    nodes.Perm (n :: PathTree.unlink nodes n.id) := by
  obtain ⟨left, right, rfl, hleft, hright⟩ := h.exists_around mem
  rw [unlink_around hleft hright]
  exact List.perm_middle

namespace RadixPrefixCache

variable {c : RadixPrefixCache} {page : Nat} {path : Nat → List Nat} {locked : List Nat}

/-- The heap of the eviction loop holds exactly the leaves without references. -/
structure FreeLeaves (nodes leaves : List RadixTreeNode) : Prop where
  distinct : leaves.Nodup
  mem_iff : ∀ n, n ∈ leaves ↔ n ∈ nodes ∧ isLeaf nodes n.id = true ∧ n.data.refCount = 0

theorem freeLeaves_collect (h : Shaped page c.tree.nodes path) :
    FreeLeaves c.tree.nodes c.collectLeaveNodesForEvict :=
  { distinct := (List.Nodup.of_map _ h.distinct).filter _
    mem_iff := fun n => by simp [collectLeaveNodesForEvict] }

/-- The heap after a leaf is taken off: its parent joins when it has become a leaf without
references. -/
theorem FreeLeaves.step {nodes leaves rest : List RadixTreeNode} (h : FreeLeaves nodes leaves)
    (shaped : Shaped page nodes path) {n : RadixTreeNode} (taken : leaves.Perm (n :: rest)) :
    FreeLeaves (PathTree.unlink nodes n.id)
      (match lookup (PathTree.unlink nodes n.id) n.parent with
        | none => rest
        | some parent =>
          if isLeaf (PathTree.unlink nodes n.id) parent.id = true ∧ parent.data.refCount = 0 then
            rest ++ [parent]
          else rest) := by
  obtain ⟨hn, leaf, free⟩ := (h.mem_iff n).mp (taken.mem_iff.mpr (by simp))
  have distinct := taken.nodup_iff.mp h.distinct
  rw [List.nodup_cons] at distinct
  have shaped' := shaped.unlink (isLeaf_iff.mp leaf)
  -- A node that is not the parent is a leaf after the step iff it was one before.
  have same_leaf : ∀ m : RadixTreeNode, m.id ≠ n.parent →
      (isLeaf (PathTree.unlink nodes n.id) m.id = true ↔ isLeaf nodes m.id = true) := by
    intro m other
    simp only [isLeaf_iff, mem_unlink]
    constructor
    · intro all x hx child
      by_cases same : x.id = n.id
      · exact other (by rw [← child, shaped.eq_of_id hx hn same])
      · exact all x ⟨hx, same⟩ child
    · exact fun all x hx => all x hx.1
  have parent_inner : ∀ m : RadixTreeNode, m.id = n.parent → isLeaf nodes m.id ≠ true := by
    intro m same leaf
    exact isLeaf_iff.mp leaf n hn same.symm
  have rest_iff : ∀ m : RadixTreeNode, m ∈ rest ↔ (m ∈ PathTree.unlink nodes n.id ∧
      isLeaf (PathTree.unlink nodes n.id) m.id = true ∧ m.data.refCount = 0) ∧
        m.id ≠ n.parent := by
    intro m
    constructor
    · intro hm
      obtain ⟨inside, leaf', free'⟩ := (h.mem_iff m).mp (taken.mem_iff.mpr (by simp [hm]))
      have other : m.id ≠ n.parent := fun same => parent_inner m same leaf'
      refine ⟨⟨mem_unlink.mpr ⟨inside, fun same => ?_⟩, (same_leaf m other).mpr leaf', free'⟩,
        other⟩
      exact distinct.1 (shaped.eq_of_id inside hn same ▸ hm)
    · rintro ⟨⟨inside, leaf', free'⟩, other⟩
      obtain ⟨inside', differ⟩ := mem_unlink.mp inside
      have member := (h.mem_iff m).mpr ⟨inside', (same_leaf m other).mp leaf', free'⟩
      rcases List.mem_cons.mp (taken.mem_iff.mp member) with rfl | member
      · exact absurd rfl differ
      · exact member
  have no_parent : ∀ m ∈ rest, m.id ≠ n.parent := fun m hm => ((rest_iff m).mp hm).2
  cases found : lookup (PathTree.unlink nodes n.id) n.parent with
  | none =>
    refine { distinct := distinct.2, mem_iff := fun m => (rest_iff m).trans ?_ }
    refine and_iff_left_of_imp fun inside same => ?_
    have absent := List.find?_eq_none.mp found m inside.1
    simp [same] at absent
  | some parent =>
    have hp := List.mem_of_find?_eq_some found
    have pid : parent.id = n.parent := by simpa using List.find?_some found
    simp only
    split
    · rename_i joins
      refine { distinct := ?_, mem_iff := fun m => ?_ }
      · refine List.nodup_append.mpr ⟨distinct.2, List.nodup_singleton _, ?_⟩
        rintro m hm x hx rfl
        rw [List.mem_singleton.mp hx] at hm
        exact no_parent parent hm pid
      · rw [List.mem_append, List.mem_singleton, rest_iff]
        constructor
        · rintro (⟨inside, -⟩ | rfl)
          · exact inside
          · exact ⟨hp, joins⟩
        · intro inside
          by_cases same : m.id = n.parent
          · exact .inr (shaped'.eq_of_id inside.1 hp (same.trans pid.symm))
          · exact .inl ⟨inside, same⟩
    · rename_i stays
      refine { distinct := distinct.2, mem_iff := fun m => (rest_iff m).trans ?_ }
      refine and_iff_left_of_imp fun inside same => stays ?_
      obtain rfl := shaped'.eq_of_id inside.1 hp (same.trans pid.symm)
      exact inside.2

/-- What an eviction does to a cache: it takes off nodes without references, returns their slots and
keeps everything else. -/
structure Evicted (c c' : RadixPrefixCache) (path : Nat → List Nat) (locked : List Nat)
    (gone : List RadixTreeNode) : Prop where
  pageSize : c'.pageSize = c.pageSize
  accounted : c'.sized.Accounted c'.pageSize path locked
  perm : c.tree.nodes.Perm (gone ++ c'.tree.nodes)
  free : ∀ n ∈ gone, n.data.refCount = 0

theorem evictLoop_spec {size : Nat} {tie : List RadixTreeNode → Nat} {fuel : Nat}
    {leaves : List RadixTreeNode} {evicted : Nat} {indices : List Int}
    (h : c.sized.Accounted c.pageSize path locked) (heap : FreeLeaves c.tree.nodes leaves)
    (enough : (size : Int) ≤ evicted + c.evictableSize) (fuelled : c.tree.nodes.length < fuel) :
    ∃ c' gone, evictLoop size tie fuel c leaves evicted indices =
        some (c', indices ++ gone.flatMap fun n => n.data.value) ∧
      Evicted c c' path locked gone ∧
      size ≤ evicted + (gone.map fun n => n.key.length).sum := by
  induction fuel generalizing c leaves evicted indices with
  | zero => omega
  | succ fuel ih =>
    simp only [evictLoop]
    by_cases more : evicted < size
    · rw [if_pos more]
      obtain ⟨a, ha, leaf, free⟩ := h.exists_free_leaf (by
        change 0 < c.evictableSize
        omega)
      have nonempty : leaves ≠ [] := List.ne_nil_of_mem ((heap.mem_iff a).mpr ⟨ha, leaf, free⟩)
      obtain ⟨n, rest, popped⟩ : ∃ n rest,
          heappop (fun n : RadixTreeNode => n.data.timestamp) tie leaves = some (n, rest) :=
        heappop_isSome nonempty
      have taken := heappop_perm popped
      obtain ⟨hn, leaf', free'⟩ := (heap.mem_iff n).mp (taken.mem_iff.mpr (by simp))
      simp only [popped]
      rw [if_pos ⟨free', leaf'⟩]
      set c₁ : RadixPrefixCache := { c with
        sized := { c.sized with
          tree := c.tree.unlink n
          evictable := c.sized.evictable - n.key.length } } with hc₁
      have h₁ : c₁.sized.Accounted c₁.pageSize path locked := h.unlink hn leaf' free'
      have heap₁ := heap.step h.ok.shaped taken
      have perm := perm_unlink h.ok.shaped hn
      have fewer : c.tree.nodes.length = (PathTree.unlink c.tree.nodes n.id).length + 1 :=
        perm.length_eq
      obtain ⟨c', gone, done, out, freed⟩ := @ih c₁ _ (evicted + n.key.length)
        (indices ++ n.data.value) h₁ heap₁
        (by
          change (size : Int) ≤ (evicted + n.key.length : Nat) + (c.evictableSize - n.key.length)
          push_cast
          omega)
        (by
          change (PathTree.unlink c.tree.nodes n.id).length < fuel
          omega)
      refine ⟨c', n :: gone, ?_, ⟨out.pageSize, out.accounted, perm.trans (out.perm.cons n), ?_⟩,
        ?_⟩
      · rw [List.flatMap_cons, ← List.append_assoc]
        exact done
      · intro m hm
        rcases List.mem_cons.mp hm with rfl | hm
        · exact free'
        · exact out.free m hm
      · rw [List.map_cons, List.sum_cons]
        omega
    · rw [if_neg more]
      refine ⟨c, [], by simp, ⟨rfl, h, by simp, by simp⟩, ?_⟩
      simp only [List.map_nil, List.sum_nil]
      omega

theorem length_values {nodes : List RadixTreeNode}
    (values : ∀ n ∈ nodes, n.data.value.length = n.key.length) :
    (nodes.flatMap fun n => n.data.value).length = (nodes.map fun n => n.key.length).sum := by
  rw [List.length_flatMap, List.map_congr_left values]

/-- Evicting no more than the evictable size succeeds, frees at least what was asked for and returns
exactly the slots of the nodes taken off. -/
theorem evict_spec {size : Nat} (tie : List RadixTreeNode → Nat)
    (h : c.sized.Accounted c.pageSize path locked) (enough : (size : Int) ≤ c.evictableSize) :
    ∃ c' gone, c.evict size tie = some (c', gone.flatMap fun n => n.data.value) ∧
      Evicted c c' path locked gone ∧
      size ≤ (gone.flatMap fun n : RadixTreeNode => n.data.value).length := by
  by_cases zero : size = 0
  · exact ⟨c, [], by simp [evict, zero], ⟨rfl, h, by simp, by simp⟩, by simp [zero]⟩
  · obtain ⟨c', gone, done, out, freed⟩ := @evictLoop_spec c path locked size tie _ _ 0 [] h
      (freeLeaves_collect h.ok.shaped) (by simpa using enough) (Nat.lt_succ_self _)
    refine ⟨c', gone, ?_, out, ?_⟩
    · rw [evict, if_neg zero, if_pos enough]
      exact done
    · rw [length_values fun n hn => h.ok.values n (out.perm.mem_iff.mpr (by simp [hn]))]
      omega

theorem size_le_of_evict {size : Nat} {tie : List RadixTreeNode → Nat}
    {r : RadixPrefixCache × List Int} (done : c.evict size tie = some r)
    (nonneg : 0 ≤ c.evictableSize) : (size : Int) ≤ c.evictableSize := by
  by_contra more
  have nonzero : size ≠ 0 := by
    rintro rfl
    exact more nonneg
  rw [evict, if_neg nonzero, if_neg more] at done
  exact absurd done (by simp)

end RadixPrefixCache

end FreeSwarm.KvCache
