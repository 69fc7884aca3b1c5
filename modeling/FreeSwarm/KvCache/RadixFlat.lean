import FreeSwarm.Foundation.PageTrie
import FreeSwarm.KvCache.RadixSession

/-!
# The plain prefix cache is a flat page trie

Whatever the sequence of calls, and also when a lock is taken on a node that was evicted, the answers
are those of a flat page trie: a match finds the longest stored prefix and the slots stored with it,
an insert stores what was not stored, an eviction takes entries off, and nothing else changes it. In
particular splitting an edge is not an event of the flat trie.
-/

namespace FreeSwarm.KvCache

open FreeSwarm.Foundation FreeSwarm.Foundation.PathTree

def pagesOf (page : Nat) (path : Nat → List Nat) (n : RadixTreeNode) :
    List (List Nat × List Int) :=
  (List.range (n.key.length / page)).map fun k =>
    (path n.parent ++ n.key.take ((k + 1) * page), (n.data.value.drop (k * page)).take page)

namespace RadixTree

def pages (page : Nat) (path : Nat → List Nat) (t : RadixTree) : List (List Nat × List Int) :=
  t.nodes.flatMap (pagesOf page path)

structure Represents (page : Nat) (t : RadixTree) (path : Nat → List Nat) (m : PageTrie Nat Int) :
    Prop where
  ok : t.Ok page path
  entry : ∀ p s, m p = some s ↔ (p, s) ∈ t.pages page path

variable {page : Nat} {t t' : RadixTree} {path path' : Nat → List Nat} {m : PageTrie Nat Int}

/-! ## Pages of a tree -/

theorem flatMap_pages (l : List Int) (k : Nat) :
    ((List.range k).flatMap fun i => (l.drop (i * page)).take page) = l.take (k * page) := by
  induction k with
  | zero => simp
  | succ k ih =>
    rw [List.range_succ, List.flatMap_append, ih, List.flatMap_singleton, Nat.succ_mul,
      List.take_add]

variable {p : List Nat} {n : RadixTreeNode}

theorem flatMap_pagesOf (ok : t.Ok page path) (mem : n ∈ t.nodes) :
    (pagesOf page path n).flatMap Prod.snd = n.data.value := by
  rw [pagesOf, List.flatMap_map, flatMap_pages, Nat.div_mul_cancel (ok.shaped.aligned n mem),
    ← ok.values n mem, List.take_length]

theorem mem_pagesOf {s : List Int} :
    (p, s) ∈ pagesOf page path n ↔ ∃ k < n.key.length / page,
      p = path n.parent ++ n.key.take ((k + 1) * page) ∧
      s = (n.data.value.drop (k * page)).take page := by
  simp only [pagesOf, List.mem_map, List.mem_range, Prod.mk.injEq]
  constructor
  · rintro ⟨k, below, rfl, rfl⟩
    exact ⟨k, below, rfl, rfl⟩
  · rintro ⟨k, below, rfl, rfl⟩
    exact ⟨k, below, rfl, rfl⟩

structure OnEdge (page : Nat) (path : Nat → List Nat) (n : RadixTreeNode) (p : List Nat) : Prop where
  enters : path n.parent ++ n.key.take page <+: p
  above : p <+: path n.id
  whole : page ∣ p.length

theorem onEdge (ok : t.Ok page path) (mem : n ∈ t.nodes)
    {s : List Int} (here : (p, s) ∈ pagesOf page path n) : OnEdge page path n p := by
  obtain ⟨k, below, rfl, -⟩ := mem_pagesOf.mp here
  have room : (k + 1) * page ≤ n.key.length :=
    (Nat.mul_le_mul_right page below).trans (Nat.div_mul_le_self _ _)
  refine { enters := ?_, above := ?_, whole := ?_ }
  · refine (List.prefix_append_right_inj _).mpr (List.take_prefix_take_left ?_)
    exact Nat.le_mul_of_pos_left page (Nat.succ_pos k)
  · rw [ok.shaped.path_eq n mem]
    exact (List.prefix_append_right_inj _).mpr (List.take_prefix _ _)
  · rw [List.length_append, List.length_take, Nat.min_eq_left room]
    exact Nat.dvd_add (ok.shaped.dvd_length_path (ok.shaped.parent n mem)) (Nat.dvd_mul_left _ _)

theorem OnEdge.unique (ok : t.Ok page path) {n n' : RadixTreeNode} (mem : n ∈ t.nodes)
    (mem' : n' ∈ t.nodes) (h : OnEdge page path n p) (h' : OnEdge page path n' p) :
    n = n' := by
  have below := ok.shaped.edge mem (live_of_mem mem') (h.enters.trans h'.above)
  have above := ok.shaped.edge mem' (live_of_mem mem) (h'.enters.trans h.above)
  have same : path n.id = path n'.id :=
    below.eq_of_length (Nat.le_antisymm below.length_le above.length_le)
  exact ok.shaped.eq_of_id mem mem'
    (ok.shaped.path_injective (live_of_mem mem) (live_of_mem mem') same)

theorem nodup_pages (ok : t.Ok page path) : ((t.pages page path).map Prod.fst).Nodup := by
  have positive := ok.shaped.positive
  rw [pages, List.map_flatMap]
  refine List.nodup_flatMap.mpr ⟨fun n mem => ?_, ?_⟩
  · rw [pagesOf, List.map_map]
    refine List.Nodup.map_on (fun k hk k' hk' same => ?_) List.nodup_range
    have room : ∀ k ∈ List.range (n.key.length / page), (k + 1) * page ≤ n.key.length :=
      fun k hk => (Nat.mul_le_mul_right page (List.mem_range.mp hk)).trans (Nat.div_mul_le_self _ _)
    have lengths := congrArg List.length same
    simp only [Function.comp_apply, List.length_append, List.length_take,
      Nat.min_eq_left (room k hk), Nat.min_eq_left (room k' hk'), Nat.add_left_cancel_iff] at lengths
    have equal := Nat.eq_of_mul_eq_mul_right positive lengths
    omega
  · have distinct : t.nodes.Nodup := List.Nodup.of_map _ ok.shaped.distinct
    refine distinct.pairwise_of_forall_ne fun n mem n' mem' differ => ?_
    intro p inside inside'
    obtain ⟨⟨_, s⟩, here, rfl⟩ := List.mem_map.mp inside
    obtain ⟨⟨_, s'⟩, here', same⟩ := List.mem_map.mp inside'
    simp only at same
    subst same
    exact differ ((onEdge ok mem here).unique ok mem mem' (onEdge ok mem' here'))

/-! ## What the operations do to the pages -/

theorem flatMap_pagesOf_congr {nodes : List RadixTreeNode} {f : RadixTreeNode → RadixTreeNode}
    (same : ∀ n ∈ nodes, path' (f n).parent = path n.parent ∧ (f n).key = n.key ∧
      (f n).data.value = n.data.value) :
    (nodes.map f).flatMap (pagesOf page path') = nodes.flatMap (pagesOf page path) := by
  rw [List.flatMap_map]
  refine List.flatMap_congr fun n mem => ?_
  obtain ⟨parent, key, value⟩ := same n mem
  rw [pagesOf, pagesOf, parent, key, value]

/-- Changing what a node carries, but not its slots, keeps the flat trie. -/
theorem Represents.modify (h : Represents page t path m) (id : Nat) {f : RadixData → RadixData}
    (kept : ∀ d, (f d).value = d.value) : Represents page (t.modify id f) path m := by
  refine { ok := h.ok.modify id kept, entry := fun p s => ?_ }
  rw [h.entry, pages, pages, modify_nodes, PathTree.modify, flatMap_pagesOf_congr]
  intro n _
  split
  · exact ⟨rfl, rfl, kept n.data⟩
  · exact ⟨rfl, rfl, rfl⟩

theorem pagesOf_split (positive : 0 < page) {c : RadixTreeNode} {pos fresh : Nat}
    (below : pos ≤ c.key.length) (whole : page ∣ pos) (new : fresh ≠ c.parent) :
    pagesOf page (Function.update path fresh (path c.parent ++ c.key.take pos))
        { id := fresh, parent := c.parent, key := c.key.take pos,
          data := RadixData.head pos c.data } ++
      pagesOf page (Function.update path fresh (path c.parent ++ c.key.take pos))
        { id := c.id, parent := fresh, key := c.key.drop pos, data := RadixData.tail pos c.data } =
      pagesOf page path c := by
  obtain ⟨k, rfl⟩ := whole
  have first : (c.key.take (page * k)).length / page = k := by
    rw [List.length_take, Nat.min_eq_left below, Nat.mul_div_cancel_left _ positive]
  have all : c.key.length / page = k + (c.key.drop (page * k)).length / page := by
    rw [List.length_drop, ← Nat.mul_add_div positive, Nat.add_sub_cancel' below]
  simp only [pagesOf]
  rw [all, first, List.range_add, List.map_append, List.map_map]
  congr 1
  · refine List.map_congr_left fun i hi => ?_
    have inside : (i + 1) * page ≤ page * k := by
      rw [Nat.mul_comm page]
      exact Nat.mul_le_mul_right _ (List.mem_range.mp hi)
    rw [Function.update_of_ne new.symm, List.take_take, Nat.min_eq_left inside]
    congr 1
    simp only [RadixData.head, RadixData.fresh]
    rw [List.drop_take, List.take_take, Nat.min_eq_left]
    rw [Nat.succ_mul] at inside
    omega
  · refine List.map_congr_left fun i _ => ?_
    have whole : (k + i + 1) * page = page * k + (i + 1) * page := by
      ring
    have start : (k + i) * page = page * k + i * page := by
      ring
    simp only [Function.comp_apply, Function.update_self, RadixData.tail]
    rw [whole, start, List.take_add, List.append_assoc, List.drop_drop]

theorem Represents.splitAt (h : Represents page t path m) {c : RadixTreeNode} {pos : Nat}
    (mem : c ∈ t.nodes) (positive : 0 < pos) (below : pos < c.key.length) (whole : page ∣ pos) :
    Represents page (t.splitAt c.id pos).1 (t.splitPath path c pos) m := by
  refine { ok := h.ok.splitAt mem positive below whole, entry := fun p s => ?_ }
  have kept : ∀ n ∈ t.nodes, t.splitPath path c pos n.parent = path n.parent := fun n hn =>
    Function.update_of_ne ((h.ok.shaped.parent n hn).ne_of_new h.ok.new) _ _
  have new := ((h.ok.shaped.parent c mem).ne_of_new h.ok.new).symm
  have halves := @pagesOf_split page path h.ok.shaped.positive c pos t.counter below.le whole new
  obtain ⟨left, right, around, hleft, hright⟩ := h.ok.shaped.exists_around mem
  have same : ∀ l : List RadixTreeNode, (∀ n ∈ l, n ∈ t.nodes) →
      l.flatMap (pagesOf page (t.splitPath path c pos)) = l.flatMap (pagesOf page path) := by
    intro l inside
    refine List.flatMap_congr fun n hn => ?_
    rw [pagesOf, pagesOf, kept n (inside n hn)]
  rw [h.entry, pages, pages, splitAt_nodes]
  have before := same left fun n hn => around ▸ List.mem_append_left _ hn
  have after := same right fun n hn => around ▸ List.mem_append_right _ (List.mem_cons_of_mem _ hn)
  rw [around, split_around hleft hright, List.flatMap_append, List.flatMap_append,
    List.flatMap_cons, List.flatMap_cons, List.flatMap_cons, before, after,
    ← List.append_assoc (pagesOf _ _ _) (pagesOf _ _ _)]
  rw [splitPath, halves]

theorem Refined.represents (r : Refined page t path t' path') (h : Represents page t path m) :
    Represents page t' path' m := by
  refine (r.preserves h.ok (I := fun t' path' => Represents page t' path' m) h ?_ ?_).2
  · exact fun t₁ _ id _ _ h₁ => h₁.modify id fun _ => rfl
  · exact fun t₁ _ c pos _ mem positive below whole h₁ => h₁.splitAt mem positive below whole

theorem Represents.of_perm (h : Represents page t path m) {gone : List RadixTreeNode}
    (ok : t'.Ok page path) (perm : t.nodes.Perm (gone ++ t'.nodes)) :
    Represents page t' path (m.drop ((gone.flatMap (pagesOf page path)).map Prod.fst)) := by
  refine { ok := ok, entry := fun p s => ?_ }
  have split : (t.pages page path).Perm (gone.flatMap (pagesOf page path) ++ t'.pages page path) := by
    rw [pages, pages, ← List.flatMap_append]
    exact perm.flatMap_right _
  have distinct := (split.map Prod.fst).nodup_iff.mp (nodup_pages h.ok)
  rw [List.map_append] at distinct
  rw [PageTrie.drop]
  split
  · rename_i off
    refine ⟨fun none => absurd none (by simp), fun here => ?_⟩
    exact absurd (List.mem_map_of_mem (f := Prod.fst) here) (List.disjoint_of_nodup_append distinct off)
  · rename_i on
    rw [h.entry, split.mem_iff, List.mem_append]
    exact or_iff_right fun here => on (List.mem_map_of_mem (f := Prod.fst) here)

/-! ## Entries along a path -/

theorem exists_page (ok : t.Ok page path) (mem : n ∈ t.nodes)
    (above : p <+: path n.id) (whole : page ∣ p.length)
    (below : (path n.parent).length < p.length) :
    ∃ k < n.key.length / page, p = path n.parent ++ n.key.take ((k + 1) * page) := by
  have positive := ok.shaped.positive
  obtain ⟨k, hk⟩ := Nat.dvd_sub whole (ok.shaped.dvd_length_path (ok.shaped.parent n mem))
  have nonzero : k ≠ 0 := by
    rintro rfl
    omega
  obtain ⟨k, rfl⟩ := Nat.exists_eq_succ_of_ne_zero nonzero
  rw [Nat.mul_comm, Nat.succ_eq_add_one] at hk
  have room := above.length_le
  rw [ok.shaped.length_path mem] at room
  refine ⟨k, (Nat.le_div_iff_mul_le positive).mpr (by rw [hk.symm]; omega), ?_⟩
  refine (List.prefix_of_prefix_length_le above ?_ ?_).eq_of_length ?_
  · rw [ok.shaped.path_eq n mem]
    exact (List.prefix_append_right_inj _).mpr (List.take_prefix _ _)
  · simp only [List.length_append, List.length_take]
    omega
  · simp only [List.length_append, List.length_take]
    omega

theorem Represents.entry_of_prefix (h : Represents page t path m) {u : Nat}
    (live : Live t.nodes u) (ends : PageTrie.IsPath page p) (above : p <+: path u) :
    (m p).isSome := by
  have climb := h.ok.climb live
  generalize t.up u = nodes at climb
  -- Up the path: the page is on the edge of the node, or further up.
  induction climb with
  | root =>
    rw [h.ok.shaped.root] at above
    exact absurd (List.prefix_nil.mp above) ends.1
  | @node n _ mem climb ih =>
    have upper : path n.parent <+: path n.id := h.ok.shaped.path_eq n mem ▸ List.prefix_append _ _
    by_cases short : p.length ≤ (path n.parent).length
    · exact ih climb.live (List.prefix_of_prefix_length_le above upper short)
    · obtain ⟨k, below, key⟩ := exists_page h.ok mem above ends.2 (by omega)
      have entry := (h.entry p ((n.data.value.drop (k * page)).take page)).mpr
        (List.mem_flatMap.mpr ⟨n, mem, mem_pagesOf.mpr ⟨k, below, key, rfl⟩⟩)
      exact Option.isSome_iff_exists.mpr ⟨_, entry⟩

theorem Represents.prefix_of_entry (h : Represents page t path m)
    (entry : (m p).isSome) : ∃ n ∈ t.nodes, OnEdge page path n p := by
  obtain ⟨s, found⟩ := Option.isSome_iff_exists.mp entry
  obtain ⟨n, mem, here⟩ := List.mem_flatMap.mp ((h.entry p s).mp found)
  exact ⟨n, mem, onEdge h.ok mem here⟩

theorem Represents.closed (h : Represents page t path m) : m.Closed page := by
  intro p q ends longer entry
  obtain ⟨n, mem, on⟩ := h.prefix_of_entry entry
  exact h.entry_of_prefix (live_of_mem mem) ends (longer.trans on.above)

theorem Represents.stored_up (h : Represents page t path m) {u : Nat} (live : Live t.nodes u) :
    ((t.up u).reverse.flatMap fun n => n.data.value) = m.stored page (path u) := by
  have climb := h.ok.climb live
  generalize t.up u = nodes at climb
  induction climb with
  | root => simp [h.ok.shaped.root, PageTrie.stored]
  | @node n above mem climb ih =>
    rw [List.reverse_cons, List.flatMap_append, ih climb.live, List.flatMap_singleton,
      h.ok.shaped.path_eq n mem, PageTrie.stored_append h.ok.shaped.positive
        (h.ok.shaped.dvd_length_path climb.live)]
    congr 1
    rw [← flatMap_pagesOf h.ok mem, pagesOf, List.flatMap_map]
    refine List.flatMap_congr fun k hk => ?_
    have entry := (h.entry _ _).mpr (List.mem_flatMap.mpr
      ⟨n, mem, mem_pagesOf.mpr ⟨k, List.mem_range.mp hk, rfl, rfl⟩⟩)
    rw [entry, Option.getD_some]

theorem Arrived.longest {key ids : List Nat} {node pos : Nat}
    (a : Arrived page t path key t' path' node pos) (ok : t.Ok page path)
    (h : Represents page t' path' m) (start : key <+: ids)
    (all : alignDown ids.length page ≤ key.length) : m.longest page ids = pos := by
  have positive := ok.shaped.positive
  have inside := a.inside
  have short := start.length_le
  have same : ∀ k ≤ key.length, ids.take k = key.take k := by
    intro k below
    obtain ⟨rest, rfl⟩ := start
    rw [List.take_append_of_le_length below]
  have whole := a.whole ok
  refine PageTrie.longest_eq positive whole (by omega) ?_ ?_
  · intro nonzero
    rw [same pos inside, ← a.along]
    have length := a.length_path
    refine h.entry_of_prefix a.live ⟨?_, length ▸ whole⟩ List.prefix_rfl
    exact List.ne_nil_of_length_pos (by omega)
  · intro k pages more below
    have below' := (le_alignDown pages below).trans all
    by_contra entry
    obtain ⟨n, mem, on⟩ := h.prefix_of_entry (Option.isSome_iff_ne_none.mpr entry)
    have gap := Nat.le_of_dvd (by omega) (Nat.dvd_sub pages whole)
    refine a.deepest n.id (live_of_mem mem) (by omega) (List.IsPrefix.trans ?_ on.above)
    rw [same k below']
    exact List.take_prefix_take_left (by omega)

theorem slots_unique (ok : t.Ok page path) {s s' : List Int}
    (here : (p, s) ∈ t.pages page path) (here' : (p, s') ∈ t.pages page path) : s = s' :=
  (Prod.mk.inj (List.inj_on_of_nodup_map (nodup_pages ok) here here' rfl)).2

theorem Represents.addChild (h : Represents page t path m) {u : Nat} {key : List Nat}
    {d : RadixData} {ids : List Nat} {indices : List Int}
    (ok' : (t.addChild u key d).1.Ok page (Function.update path t.counter (path u ++ key)))
    (live : Live t.nodes u) (along : path u ++ key = ids.take (alignDown ids.length page))
    (value : d.value = (indices.take (alignDown ids.length page)).drop (path u).length) :
    Represents page (t.addChild u key d).1 (Function.update path t.counter (path u ++ key))
      (m.store page ids indices) := by
  set path' := Function.update path t.counter (path u ++ key) with hpath
  set n : RadixTreeNode := { id := t.counter, parent := u, key := key, data := d } with hn
  have here : path' n.id = path u ++ key := Function.update_self _ _ _
  have parent : path' n.parent = path u := Function.update_of_ne (live.ne_of_new h.ok.new) _ _
  have mem : n ∈ (t.addChild u key d).1.nodes := List.mem_append_right _ (List.mem_singleton_self n)
  have pages' : (t.addChild u key d).1.pages page path' =
      t.pages page path ++ pagesOf page path' n := by
    rw [pages, addChild_nodes, List.flatMap_append, List.flatMap_singleton, pages]
    congr 1
    refine List.flatMap_congr fun x hx => ?_
    have same : path' x.parent = path x.parent :=
      Function.update_of_ne ((h.ok.shaped.parent x hx).ne_of_new h.ok.new) _ _
    rw [pagesOf, pagesOf, same]
  refine { ok := ok', entry := fun p s => ?_ }
  rw [PageTrie.store]
  cases found : m p with
  | some s₀ =>
    have old : (p, s₀) ∈ (t.addChild u key d).1.pages page path' :=
      pages' ▸ List.mem_append_left _ ((h.entry p s₀).mp found)
    rw [Option.some_or, Option.some_inj]
    exact ⟨fun same => same ▸ old, fun new => slots_unique ok' old new⟩
  | none =>
    have fresh : (p, s) ∉ t.pages page path := fun old => by
      have entry := (h.entry p s).mpr old
      exact absurd (found.symm.trans entry) (by simp)
    rw [Option.none_or, pages', List.mem_append, or_iff_right fresh]
    split
    · rename_i inside
      obtain ⟨ends, start⟩ := inside
      have short := start.length_le
      have above : p <+: path' n.id := by
        rw [here, along]
        refine List.prefix_of_prefix_length_le start (List.take_prefix _ _) ?_
        rw [List.length_take, Nat.min_eq_left (alignDown_le _ _)]
        exact le_alignDown ends.2 short
      have below : (path' n.parent).length < p.length := by
        rw [parent]
        by_contra reaches
        have old := h.entry_of_prefix live ends
          (List.prefix_of_prefix_length_le (here ▸ above) (List.prefix_append _ _) (by omega))
        rw [found] at old
        exact absurd old (by simp)
      obtain ⟨k, hk, at_k⟩ := exists_page ok' mem above ends.2 below
      have room : (k + 1) * page ≤ n.key.length :=
        (Nat.mul_le_mul_right page hk).trans (Nat.div_mul_le_self _ _)
      have length : p.length = (path u).length + (k + 1) * page := by
        rw [at_k, List.length_append, List.length_take, Nat.min_eq_left room, parent]
      have whole : p.length ≤ alignDown ids.length page := le_alignDown ends.2 short
      have slots : (n.data.value.drop (k * page)).take page =
          (indices.drop (p.length - page)).take page := by
        change (d.value.drop (k * page)).take page = _
        rw [Nat.succ_mul] at length
        rw [value, List.drop_drop, List.drop_take, List.take_take, Nat.min_eq_left (by omega)]
        congr 2
        omega
      have new : (p, (indices.drop (p.length - page)).take page) ∈ pagesOf page path' n :=
        mem_pagesOf.mpr ⟨k, hk, at_k, slots.symm⟩
      rw [Option.some_inj]
      refine ⟨fun same => same ▸ new, fun other => ?_⟩
      exact slots_unique ok' (pages' ▸ List.mem_append_right _ new)
        (pages' ▸ List.mem_append_right _ other)
    · rename_i outside
      refine ⟨fun none => absurd none (by simp), fun new => absurd ?_ outside⟩
      have on := onEdge ok' mem new
      have first := ok'.shaped.length_firstPage mem
      have positive := ok'.shaped.positive
      refine ⟨⟨List.ne_nil_of_length_pos ?_, on.whole⟩, ?_⟩
      · have longer := on.enters.length_le
        rw [List.length_append, first] at longer
        omega
      · have above := on.above
        rw [here, along] at above
        exact above.trans (List.take_prefix _ _)

theorem Represents.store_of_read (h : Represents page t path m) {ids : List Nat}
    {indices : List Int} {u : Nat} (live : Live t.nodes u)
    (along : path u = ids.take (alignDown ids.length page)) : m.store page ids indices = m := by
  by_cases nothing : alignDown ids.length page = 0
  · funext p
    rw [PageTrie.store, if_neg, Option.or_none]
    rintro ⟨⟨nonempty, whole⟩, start⟩
    have short := le_alignDown whole start.length_le
    rw [nothing] at short
    exact nonempty (List.length_eq_zero_iff.mp (Nat.le_zero.mp short))
  · refine PageTrie.store_of_cached h.closed ?_
    change (m (ids.take (alignDown ids.length page))).isSome
    rw [← along]
    refine h.entry_of_prefix live ⟨?_, h.ok.shaped.dvd_length_path live⟩ List.prefix_rfl
    refine List.ne_nil_of_length_pos ?_
    rw [along, List.length_take, Nat.min_eq_left (alignDown_le _ _)]
    omega

end RadixTree

end FreeSwarm.KvCache
