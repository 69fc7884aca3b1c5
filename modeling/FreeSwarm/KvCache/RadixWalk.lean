import FreeSwarm.KvCache.RadixCache

/-!
# Walks keep the tree

A walk only touches nodes and splits edges. `Refined` is the relation between the tree before and
after any number of such steps, so that whatever touching and splitting keep is kept by every walk.
The walk ends at the node of the longest cached prefix.
-/

namespace FreeSwarm.KvCache

open FreeSwarm.Foundation FreeSwarm.Foundation.PathTree

namespace RadixTree

/-- A tree of whole pages with fresh ids to come and one slot for each token. -/
structure Ok (page : Nat) (t : RadixTree) (path : Nat → List Nat) : Prop where
  shaped : Shaped page t.nodes path
  used : ∀ n ∈ t.nodes, n.id < t.counter
  usedDropped : ∀ n ∈ t.dropped, n.id ≠ 0 ∧ n.id < t.counter
  positive : 0 < t.counter
  values : ∀ n ∈ t.nodes, n.data.value.length = n.key.length

variable {page : Nat} {t t' : RadixTree} {path path' : Nat → List Nat}

theorem ok_empty (positive : 0 < page) : empty.Ok page fun _ => [] :=
  { shaped := Shaped.empty positive
    used := by simp [empty]
    usedDropped := by simp [empty]
    positive := Nat.one_pos
    values := by simp [empty] }

theorem Ok.new (h : t.Ok page path) : ¬ Live t.nodes t.counter := by
  rintro (zero | ⟨n, mem, same⟩)
  · exact absurd zero h.positive.ne'
  · exact absurd same (h.used n mem).ne

theorem Ok.climb (h : t.Ok page path) {u : Nat} (live : Live t.nodes u) :
    Climb t.nodes u (t.up u) := by
  refine h.shaped.climb_chain ?_ ?_ live (Nat.le_add_right _ _)
  · intro n mem
    rw [lookup, List.find?_append, ← lookup, h.shaped.lookup_eq mem, Option.some_or]
  · refine List.find?_eq_none.mpr fun n mem => ?_
    rcases List.mem_append.mp mem with mem | mem
    · simpa using h.shaped.nonroot n mem
    · simpa using (h.usedDropped n mem).1

theorem Ok.up_root (h : t.Ok page path) : t.up 0 = [] := by
  refine List.eq_nil_iff_forall_not_mem.mpr fun n mem => ?_
  obtain ⟨inside, above⟩ := ((h.climb (live_root _)).mem_iff h.shaped).mp mem
  rw [h.shaped.root] at above
  exact h.shaped.path_ne_nil inside (List.prefix_nil.mp above)

@[simp] theorem modify_nodes (t : RadixTree) (id : Nat) (f : RadixData → RadixData) :
    (t.modify id f).nodes = PathTree.modify t.nodes id f := rfl

@[simp] theorem touch_nodes (t : RadixTree) (id tic : Nat) : (t.touch id tic).nodes =
    PathTree.modify t.nodes id fun d =>
      { d with
        timestamp := tic } := rfl

@[simp] theorem splitAt_nodes (t : RadixTree) (id pos : Nat) : (t.splitAt id pos).1.nodes =
    PathTree.split t.nodes id pos t.counter (RadixData.head pos) (RadixData.tail pos) := rfl

@[simp] theorem addChild_nodes (t : RadixTree) (parent : Nat) (key : List Nat) (d : RadixData) :
    (t.addChild parent key d).1.nodes =
      t.nodes ++ [{ id := t.counter, parent := parent, key := key, data := d }] := rfl

@[simp] theorem unlink_nodes (t : RadixTree) (n : RadixTreeNode) :
    (t.unlink n).nodes = PathTree.unlink t.nodes n.id := rfl

@[simp] theorem live_touch {id tic u : Nat} :
    Live (t.touch id tic).nodes u ↔ Live t.nodes u := by
  rw [touch_nodes, live_modify]

theorem live_splitAt {c : RadixTreeNode} {pos u : Nat} (mem : c ∈ t.nodes) :
    Live (t.splitAt c.id pos).1.nodes u ↔ Live t.nodes u ∨ u = t.counter := live_split mem

theorem Ok.modify (h : t.Ok page path) (id : Nat) {f : RadixData → RadixData}
    (kept : ∀ d, (f d).value = d.value) : (t.modify id f).Ok page path := by
  refine { shaped := h.shaped.modify id f, used := ?_, usedDropped := ?_, positive := h.positive,
           values := ?_ }
  · intro x mem
    rcases mem_modify.mp mem with ⟨hx, -⟩ | ⟨n, hn, -, rfl⟩
    · exact h.used x hx
    · exact h.used n hn
  · intro x mem
    rcases mem_modify.mp mem with ⟨hx, -⟩ | ⟨n, hn, -, rfl⟩
    · exact h.usedDropped x hx
    · exact h.usedDropped n hn
  · intro x mem
    rcases mem_modify.mp mem with ⟨hx, -⟩ | ⟨n, hn, -, rfl⟩
    · exact h.values x hx
    · simpa [kept] using h.values n hn

def splitPath (t : RadixTree) (path : Nat → List Nat) (c : RadixTreeNode) (pos : Nat) :
    Nat → List Nat :=
  Function.update path t.counter (path c.parent ++ c.key.take pos)

theorem Ok.splitAt (h : t.Ok page path) {c : RadixTreeNode} {pos : Nat} (mem : c ∈ t.nodes)
    (positive : 0 < pos) (below : pos < c.key.length) (whole : page ∣ pos) :
    (t.splitAt c.id pos).1.Ok page (t.splitPath path c pos) := by
  refine { shaped := h.shaped.split _ _ mem h.new positive below whole, used := ?_,
           usedDropped := fun n hn => ⟨(h.usedDropped n hn).1, (h.usedDropped n hn).2.trans
            (Nat.lt_succ_self _)⟩, positive := Nat.succ_pos _, values := ?_ }
  · intro x hx
    rcases mem_split.mp hx with ⟨hx', -⟩ | ⟨n, hn, -, rfl | rfl⟩
    · exact (h.used x hx').trans (Nat.lt_succ_self _)
    · exact Nat.lt_succ_self _
    · exact (h.used n hn).trans (Nat.lt_succ_self _)
  · intro x hx
    rcases mem_split.mp hx with ⟨hx', -⟩ | ⟨n, hn, -, rfl | rfl⟩
    · exact h.values x hx'
    · simp [RadixData.head, RadixData.fresh, h.values n hn]
    · simp [RadixData.tail, h.values n hn]

/-- A new leaf keeps the tree, when its edge is not empty, holds whole pages, has a slot for each
token and starts differently from its siblings. -/
theorem Ok.addChild (h : t.Ok page path) {u : Nat} {key : List Nat} {d : RadixData}
    (live : Live t.nodes u) (nonempty : key ≠ []) (whole : page ∣ key.length)
    (slots : d.value.length = key.length)
    (apart : ∀ n ∈ t.nodes, n.parent = u → n.key.take page ≠ key.take page) :
    (t.addChild u key d).1.Ok page (Function.update path t.counter (path u ++ key)) := by
  refine { shaped := h.shaped.add d live h.new nonempty whole apart, used := ?_,
           usedDropped := fun n hn => ⟨(h.usedDropped n hn).1, (h.usedDropped n hn).2.trans
            (Nat.lt_succ_self _)⟩, positive := Nat.succ_pos _, values := ?_ }
  · intro x hx
    rcases mem_concat hx with hx | rfl
    · exact (h.used x hx).trans (Nat.lt_succ_self _)
    · exact Nat.lt_succ_self _
  · intro x hx
    rcases mem_concat hx with hx | rfl
    · exact h.values x hx
    · exact slots

theorem Ok.unlink (h : t.Ok page path) {n : RadixTreeNode} (mem : n ∈ t.nodes)
    (leaf : isLeaf t.nodes n.id = true) : (t.unlink n).Ok page path := by
  refine { shaped := h.shaped.unlink (isLeaf_iff.mp leaf), positive := h.positive,
           used := fun x hx => h.used x (mem_unlink.mp hx).1, usedDropped := ?_,
           values := fun x hx => h.values x (mem_unlink.mp hx).1 }
  intro x hx
  rcases mem_concat hx with hx | rfl
  · exact h.usedDropped x hx
  · exact ⟨h.shaped.nonroot x mem, h.used x mem⟩

/-- The tree after some touches and splits. -/
inductive Refined (page : Nat) (t : RadixTree) (path : Nat → List Nat) :
    RadixTree → (Nat → List Nat) → Prop where
  | refl : Refined page t path t path
  | touch {t' : RadixTree} {path' : Nat → List Nat} (id tic : Nat) :
    Refined page t path t' path' → Refined page t path (t'.touch id tic) path'
  | split {t' : RadixTree} {path' : Nat → List Nat} {c : RadixTreeNode} {pos : Nat} :
    Refined page t path t' path' → c ∈ t'.nodes → 0 < pos → pos < c.key.length → page ∣ pos →
    Refined page t path (t'.splitAt c.id pos).1 (t'.splitPath path' c pos)

theorem Refined.preserves (r : Refined page t path t' path') (ok : t.Ok page path)
    {I : RadixTree → (Nat → List Nat) → Prop} (start : I t path)
    (touch : ∀ (t : RadixTree) (path : Nat → List Nat) (id tic : Nat), t.Ok page path →
      I t path → I (t.touch id tic) path)
    (split : ∀ (t : RadixTree) (path : Nat → List Nat) (c : RadixTreeNode) (pos : Nat),
      t.Ok page path → c ∈ t.nodes → 0 < pos → pos < c.key.length → page ∣ pos → I t path →
      I (t.splitAt c.id pos).1 (t.splitPath path c pos)) :
    t'.Ok page path' ∧ I t' path' := by
  induction r with
  | refl => exact ⟨ok, start⟩
  | touch id tic _ ih => exact ⟨ih.1.modify id fun _ => rfl, touch _ _ id tic ih.1 ih.2⟩
  | split _ mem positive below whole ih =>
    exact ⟨ih.1.splitAt mem positive below whole,
      split _ _ _ _ ih.1 mem positive below whole ih.2⟩

theorem Refined.live (r : Refined page t path t' path') (ok : t.Ok page path) :
    t'.Ok page path' ∧ ∀ u, Live t.nodes u → Live t'.nodes u ∧ path' u = path u := by
  refine r.preserves ok (I := fun t' path' =>
    ∀ u, Live t.nodes u → Live t'.nodes u ∧ path' u = path u) (fun u live => ⟨live, rfl⟩) ?_ ?_
  · intro t₁ path₁ id tic _ kept u live
    exact ⟨live_touch.mpr (kept u live).1, (kept u live).2⟩
  · intro t₁ path₁ c pos ok₁ mem _ _ _ kept u live
    obtain ⟨live₁, same⟩ := kept u live
    refine ⟨(live_splitAt mem).mpr (.inl live₁), ?_⟩
    rw [splitPath, Function.update_of_ne (live₁.ne_of_new ok₁.new), same]

theorem Refined.trans {t'' : RadixTree} {path'' : Nat → List Nat}
    (r : Refined page t path t' path') (r' : Refined page t' path' t'' path'') :
    Refined page t path t'' path'' := by
  induction r' with
  | refl => exact r
  | touch id tic _ ih => exact .touch id tic ih
  | split _ mem positive below whole ih => exact .split ih mem positive below whole

/-- Where a walk ends: at the node of the longest cached prefix. -/
structure Arrived (page : Nat) (t : RadixTree) (path : Nat → List Nat) (ids : List Nat)
    (t' : RadixTree) (path' : Nat → List Nat) (node pos : Nat) : Prop where
  refined : Refined page t path t' path'
  live : Live t'.nodes node
  along : path' node = ids.take pos
  inside : pos ≤ ids.length
  deepest : Deepest page t'.nodes path' ids pos

theorem treeWalk_spec {tic : Nat} {ids : List Nat} {fuel node pos : Nat} (ok : t.Ok page path)
    (live : Live t.nodes node) (along : path node = ids.take pos) (inside : pos ≤ ids.length)
    (enough : ids.length ≤ pos + fuel) :
    ∃ path', Arrived page t path ids (treeWalk page tic ids fuel t node pos).1 path'
      (treeWalk page tic ids fuel t node pos).2.1 (treeWalk page tic ids fuel t node pos).2.2 := by
  have length_node : (path node).length = pos := by
    rw [along, List.length_take, Nat.min_eq_left inside]
  have stay (short : ids.length < pos + page) : Arrived page t path ids t path node pos :=
    { refined := .refl, live := live, along := along, inside := inside,
      deepest := deepest_of_short short }
  have positive := ok.shaped.positive
  induction fuel generalizing t path node pos with
  | zero => exact ⟨path, stay (by omega)⟩
  | succ fuel ih =>
    simp only [treeWalk]
    by_cases more : pos < ids.length
    · rw [if_pos more]
      cases found : childAt page t.nodes node (ids.drop pos) with
      | none =>
        have here : path node <+: ids := along ▸ List.take_prefix pos ids
        have deepest := ok.shaped.deepest_of_missing live here (length_node ▸ found)
        rw [length_node] at deepest
        exact ⟨path, { refined := .refl, live := live, along := along, inside := inside,
                       deepest := deepest }⟩
      | some c =>
        obtain ⟨mem, parent, -⟩ := childAt_some found
        have fits := ok.shaped.matches_child found
        have room := fits.le_rest
        have first := fits.page_le
        simp only [List.length_drop] at room
        have further : ids.take pos ++ c.key.take (matchLen page c.key (ids.drop pos)) =
            ids.take (pos + matchLen page c.key (ids.drop pos)) := by
          rw [fits.same, List.take_add]
        simp only
        by_cases partly : matchLen page c.key (ids.drop pos) ≠ c.key.length
        · rw [if_pos partly]
          have below : matchLen page c.key (ids.drop pos) < c.key.length :=
            lt_of_le_of_ne fits.le_edge partly
          have cut := Refined.split (@Refined.refl _ t path) mem (by omega) below fits.whole
          have key : ids = path c.parent ++ ids.drop pos := by
            rw [parent, along, List.take_append_drop]
          have deepest := ok.shaped.deepest_of_inside mem key fits below
          rw [parent, length_node] at deepest
          refine ⟨t.splitPath path c (matchLen page c.key (ids.drop pos)),
            { refined := .touch _ _ cut, live := ?_, along := ?_, inside := ?_,
              deepest := ?_ }⟩
          · exact live_touch.mpr ((live_splitAt mem).mpr (.inr rfl))
          · rw [splitPath]
            simp only [splitAt, Function.update_self]
            rw [parent, along, further]
          · change pos + matchLen page c.key (ids.drop pos) ≤ ids.length
            omega
          · intro v hv
            exact ok.shaped.deepest_split mem ok.new deepest v (live_touch.mp hv)
        · rw [if_neg partly]
          have whole : matchLen page c.key (ids.drop pos) = c.key.length := not_not.mp partly
          have ok' : (t.touch c.id tic).Ok page path := ok.modify c.id fun _ => rfl
          have along' : path c.id = ids.take (pos + matchLen page c.key (ids.drop pos)) := by
            rw [ok.shaped.path_eq c mem, parent, along, ← further, whole, List.take_length]
          have length' : (path c.id).length = pos + matchLen page c.key (ids.drop pos) := by
            rw [along', List.length_take, Nat.min_eq_left (by omega)]
          obtain ⟨path', arrived⟩ := ih ok' (live_touch.mpr (live_of_mem mem)) along' (by omega)
            (by omega) length' fun short =>
              { refined := .refl, live := live_touch.mpr (live_of_mem mem), along := along',
                inside := by omega, deepest := deepest_of_short short }
          exact ⟨path', { arrived with
            refined := Refined.trans (.touch c.id tic .refl) arrived.refined }⟩
    · rw [if_neg more]
      exact ⟨path, stay (by omega)⟩

theorem walk_spec (ok : t.Ok page path) (tic : Nat) (ids : List Nat) :
    ∃ path', Arrived page t path ids (t.walk page tic ids).1 path' (t.walk page tic ids).2.1
      (t.walk page tic ids).2.2 :=
  treeWalk_spec ok (live_root _) (by simp [ok.shaped.root]) (Nat.zero_le _) (by simp)

namespace Arrived

variable {ids : List Nat} {node pos : Nat}

theorem ok (a : Arrived page t path ids t' path' node pos) (ok : t.Ok page path) :
    t'.Ok page path' :=
  (a.refined.live ok).1

theorem length_path (a : Arrived page t path ids t' path' node pos) :
    (path' node).length = pos := by
  rw [a.along, List.length_take, Nat.min_eq_left a.inside]

theorem whole (a : Arrived page t path ids t' path' node pos) (ok : t.Ok page path) :
    page ∣ pos := by
  rw [← a.length_path]
  exact (a.ok ok).shaped.dvd_length_path a.live

theorem reaches (a : Arrived page t path ids t' path' node pos) (ok : t.Ok page path) {u : Nat}
    (live : Live t.nodes u) (along : path u <+: ids) : (path u).length ≤ pos := by
  obtain ⟨ok', kept⟩ := a.refined.live ok
  obtain ⟨live', same⟩ := kept u live
  rw [← same] at along ⊢
  exact ok'.shaped.length_le_of_deepest a.deepest (a.whole ok) live' along

theorem root_iff (a : Arrived page t path ids t' path' node pos) (ok : t'.Ok page path') :
    node = 0 ↔ pos = 0 := by
  have length := a.length_path
  constructor
  · rintro rfl
    rw [ok.shaped.root] at length
    exact length.symm
  · rintro rfl
    rcases a.live with rfl | ⟨n, mem, rfl⟩
    · rfl
    · exact absurd (List.length_eq_zero_iff.mp length) (ok.shaped.path_ne_nil mem)

/-- What is left of a key that was not read to its end can hang below the last node. -/
structure Hangs (page : Nat) (t : RadixTree) (path : Nat → List Nat) (key : List Nat)
    (node pos : Nat) : Prop where
  whole : page ∣ (key.drop pos).length
  nonempty : key.drop pos ≠ []
  along : path node ++ key.drop pos = key
  alone : ∀ v, Live t.nodes v → ¬ path node ++ key.drop pos <+: path v
  apart : ∀ n ∈ t.nodes, n.parent = node → n.key.take page ≠ (key.drop pos).take page

/-- After a walk that did not read all of a key of whole pages, the rest can hang below the last
node. -/
theorem hang (a : Arrived page t path ids t' path' node pos) (ok : t.Ok page path)
    (pages : page ∣ ids.length) (more : pos ≠ ids.length) : Hangs page t' path' ids node pos := by
  have ok' := a.ok ok
  have inside := a.inside
  have positive := ok.shaped.positive
  have rest : page ∣ ids.length - pos := Nat.dvd_sub pages (a.whole ok)
  have room : pos + page ≤ ids.length := by
    have one := Nat.le_of_dvd (by omega) rest
    omega
  have along : path' node ++ ids.drop pos = ids := by rw [a.along, List.take_append_drop]
  refine { whole := ?_, nonempty := ?_, along := along, alone := ?_, apart := ?_ }
  · rw [List.length_drop]
    exact rest
  · refine List.ne_nil_of_length_pos ?_
    rw [List.length_drop]
    omega
  · intro v live through
    rw [along] at through
    exact a.deepest v live room ((List.take_prefix _ _).trans through)
  · intro n hn parent same
    refine a.deepest n.id (live_of_mem hn) room ?_
    rw [List.take_add, ← a.along, ← same, ok'.shaped.path_eq n hn, parent]
    exact (List.prefix_append_right_inj _).mpr (List.take_prefix _ _)

end Arrived

end RadixTree

end FreeSwarm.KvCache
