import FreeSwarm.KvCache.SwaMatch

/-!
# Inserting a prefix

An insert goes down the cached part of a key like a match, but brings tombstones on the way back to life, and
splits them where the request has freed its own window slots. As long as that place is a page boundary the tree
stays one of whole pages, and what was not cached can hang below the last node.
-/

namespace FreeSwarm.KvCache

open FreeSwarm.Foundation FreeSwarm.Foundation.PathTree

namespace RadixTree

variable {page : Nat} {t : RadixTree} {path : Nat → List Nat}

theorem Ok.modify_values (h : t.Ok page path) (id : Nat) {f : RadixData → RadixData}
    (slots : ∀ n ∈ t.nodes, n.id = id → (f n.data).value.length = n.key.length) :
    (t.modify id f).Ok page path := by
  refine { shaped := h.shaped.modify id f, used := ?_, usedDropped := ?_, positive := h.positive,
           values := ?_ }
  · intro x mem
    rcases mem_modify.mp mem with ⟨hx, -⟩ | ⟨n, hn, -, rfl⟩
    · exact h.used x hx
    · exact h.used n hn
  · intro x mem
    rcases mem_modify.mp mem with ⟨hx, -⟩ | ⟨n, hn, -, rfl⟩
    · exact h.usedDropped x hx
    · exact h.usedDropped n hn
  · intro x mem
    rcases mem_modify.mp mem with ⟨hx, -⟩ | ⟨n, hn, same, rfl⟩
    · exact h.values x hx
    · exact slots n hn same

end RadixTree

namespace SWARadixCache

variable {page : Nat} {c c' c'' : SWARadixCache} {path path' path'' : Nat → List Nat}

/-- A change of the cache that keeps the tree, the nodes with their paths, and how far a key is cached. -/
structure Carries (page : Nat) (c : SWARadixCache) (path : Nat → List Nat) (c' : SWARadixCache)
    (path' : Nat → List Nat) : Prop where
  size : c'.pageSize = c.pageSize
  ok : c'.tree.Ok page path'
  live : ∀ u, Live c.tree.nodes u → Live c'.tree.nodes u ∧ path' u = path u
  deepest : ∀ ids pos, Deepest page c.tree.nodes path ids pos → Deepest page c'.tree.nodes path' ids pos

namespace Carries

theorem refl (ok : c.tree.Ok page path) : Carries page c path c path :=
  { size := rfl, ok := ok, live := fun _ live => ⟨live, rfl⟩, deepest := fun _ _ deepest => deepest }

theorem trans (h : Carries page c path c' path') (h' : Carries page c' path' c'' path'') :
    Carries page c path c'' path'' :=
  { size := h'.size.trans h.size
    ok := h'.ok
    live := fun u live =>
      ⟨(h'.live u (h.live u live).1).1, (h'.live u (h.live u live).1).2.trans (h.live u live).2⟩
    deepest := fun ids pos deepest => h'.deepest ids pos (h.deepest ids pos deepest) }

theorem split (ok : c.tree.Ok page path) {n : RadixTreeNode} {pos : Nat} (mem : n ∈ c.tree.nodes)
    (positive : 0 < pos) (below : pos < n.key.length) (whole : page ∣ pos) :
    Carries page c path
      { c with
        tree := (c.tree.splitAt n.id pos).1 } (c.tree.splitPath path n pos) :=
  { size := rfl
    ok := ok.splitAt mem positive below whole
    live := fun _ live => ⟨(RadixTree.live_splitAt mem).mpr (.inl live),
      Function.update_of_ne (live.ne_of_new ok.new) _ _⟩
    deepest := fun _ _ deepest => ok.shaped.deepest_split mem ok.new deepest }

theorem revive (ok : c.tree.Ok page path) (id length : Nat) {value : Option (List Int)}
    (slots : ∀ v, value = some v → ∀ n ∈ c.tree.nodes, n.id = id → v.length = n.key.length) :
    Carries page c path (c.revive id length value) path := by
  have same : ∀ u, Live (c.revive id length value).tree.nodes u ↔ Live c.tree.nodes u := by
    simp [SWARadixCache.revive]
  refine { size := rfl, ok := ?_, live := fun u live => ⟨(same u).mpr live, rfl⟩,
           deepest := fun ids pos deepest v live => deepest v ((same v).mp live) }
  refine ok.modify_values id fun n mem same => ?_
  cases fresh : value with
  | none => exact ok.values n mem
  | some v => exact slots v fresh n mem same

end Carries

/-! ## The walk of an insert -/

section
variable {evicted updateKvAfterLen : Nat} {moveSwa : Bool} {ids : List Nat} {kv : List Int}
  {s s' : Insertion} {child : RadixTreeNode}

theorem reconcile_carries (ok : s.cache.tree.Ok page path) (mem : child ∈ s.cache.tree.nodes) {seg : List Int}
    (whole : page ∣ evicted) (read : page ∣ s.total)
    (done : reconcile evicted moveSwa child seg s = some s') :
    ∃ path', Carries page s.cache path s'.cache path' := by
  have stay : Carries page s.cache path s.cache path := .refl ok
  have pages : page ∣ evicted - s.total := Nat.dvd_sub whole read
  unfold reconcile at done
  dsimp only at done
  split at done
  case isFalse => cases done; exact ⟨path, stay⟩
  split at done
  case isFalse => cases done
  split at done
  case isTrue moved =>
    obtain ⟨-, -, inside⟩ := moved
    cases done
    by_cases partly : 0 < evicted - s.total
    · simp only [if_pos partly]
      have cut := Carries.split ok mem partly inside pages
      exact ⟨_, cut.trans (.revive cut.ok child.id _ fun v absent => by cases absent)⟩
    · simp only [if_neg partly]
      exact ⟨path, .revive ok child.id _ fun v absent => by cases absent⟩
  split at done
  case isTrue => cases done; exact ⟨path, stay⟩
  split at done
  case isTrue =>
    split at done
    case isTrue lengths =>
      cases done
      refine ⟨path, .revive ok child.id _ fun v same n hn names => ?_⟩
      cases same
      rw [ok.shaped.eq_of_id hn mem names]
      exact lengths.symm
    case isFalse => cases done
  split at done
  case isTrue later inside =>
    split at done
    case isTrue lengths =>
      cases done
      have cut := Carries.split ok mem (by omega) (by omega : evicted - s.total < child.key.length) pages
      refine ⟨_, cut.trans (.revive cut.ok child.id _ fun v same n hn names => ?_)⟩
      cases same
      have tail := cut.ok.shaped.eq_of_id hn (mem_split.mpr (.inr ⟨child, mem, rfl, .inr rfl⟩)) names
      rw [tail]
      exact lengths.symm
    case isFalse => cases done
  cases done
  exact ⟨path, stay⟩

theorem enter_carries (ok : s.cache.tree.Ok page path) (mem : child ∈ s.cache.tree.nodes)
    (whole : page ∣ evicted) (read : page ∣ s.total)
    (done : s.enter evicted updateKvAfterLen moveSwa kv child = some s') :
    (∃ path', Carries page s.cache path s'.cache path') ∧ s'.node = child.id ∧
      s'.total = s.total + child.key.length := by
  unfold Insertion.enter at done
  obtain ⟨s'', first, rfl⟩ := Option.map_eq_some_iff.mp done
  refine ⟨?_, rfl, rfl⟩
  split at first
  · obtain ⟨path', carried⟩ := reconcile_carries ok mem whole read first
    exact ⟨path', carried⟩
  · cases first
    exact ⟨path, .refl ok⟩

theorem Insertion.walk_spec {fuel : Nat} (ok : s.cache.tree.Ok page path) (whole : page ∣ evicted)
    (live : Live s.cache.tree.nodes s.node) (along : path s.node = ids.take s.total)
    (inside : s.total ≤ ids.length) (enough : ids.length ≤ s.total + fuel)
    (done : Insertion.walk page evicted updateKvAfterLen moveSwa ids kv fuel s = some s') :
    ∃ path', s'.cache.pageSize = s.cache.pageSize ∧ s'.cache.tree.Ok page path' ∧
      RadixTree.Arrived page s'.cache.tree path' ids s'.cache.tree path' s'.node s'.total := by
  have positive := ok.shaped.positive
  have length_node : (path s.node).length = s.total := by
    rw [along, List.length_take, Nat.min_eq_left inside]
  have read : page ∣ s.total := by
    rw [← length_node]
    exact ok.shaped.dvd_length_path live
  have stay (deepest : Deepest page s.cache.tree.nodes path ids s.total) :
      ∃ path', s.cache.pageSize = s.cache.pageSize ∧ s.cache.tree.Ok page path' ∧
        RadixTree.Arrived page s.cache.tree path' ids s.cache.tree path' s.node s.total :=
    ⟨path, rfl, ok, .refl, live, along, inside, deepest⟩
  induction fuel generalizing s path with
  | zero =>
    obtain rfl := Option.some.inj done
    exact stay (deepest_of_short (by omega))
  | succ fuel ih =>
    simp only [Insertion.walk] at done
    by_cases more : s.total < ids.length
    · rw [if_pos more] at done
      cases found : childAt page s.cache.tree.nodes s.node (ids.drop s.total) with
      | none =>
        rw [found] at done
        obtain rfl := Option.some.inj done
        have here : path s.node <+: ids := along ▸ List.take_prefix s.total ids
        have deepest := ok.shaped.deepest_of_missing live here (length_node ▸ found)
        rw [length_node] at deepest
        exact stay deepest
      | some c =>
        obtain ⟨mem, parent, -⟩ := childAt_some found
        have fits := ok.shaped.matches_child found
        have room := fits.le_rest
        have first := fits.page_le
        rw [List.length_drop] at room
        have further : ids.take s.total ++ c.key.take (matchLen page c.key (ids.drop s.total)) =
            ids.take (s.total + matchLen page c.key (ids.drop s.total)) := by
          rw [fits.same, List.take_add]
        rw [found] at done
        simp only at done
        rw [if_neg (by omega : matchLen page c.key (ids.drop s.total) ≠ 0)] at done
        by_cases below : matchLen page c.key (ids.drop s.total) < c.key.length
        · rw [if_pos below] at done
          have cut := Carries.split ok mem (by omega) below fits.whole
          have key : ids = path c.parent ++ ids.drop s.total := by
            rw [parent, along, List.take_append_drop]
          have deepest := ok.shaped.deepest_of_inside mem key fits below
          rw [parent, length_node] at deepest
          have lengths : (s.cache.tree.headNode c (matchLen page c.key (ids.drop s.total))).key.length =
              matchLen page c.key (ids.drop s.total) := by
            simp only [RadixTree.headNode, List.length_take]
            omega
          have head : s.cache.tree.headNode c (matchLen page c.key (ids.drop s.total)) ∈
              (s.cache.tree.splitAt c.id (matchLen page c.key (ids.drop s.total))).1.nodes :=
            mem_split.mpr (.inr ⟨c, mem, rfl, .inl rfl⟩)
          obtain ⟨⟨path', carried⟩, node, total⟩ := enter_carries
            (s := { s with
              cache := { s.cache with
                tree := (s.cache.tree.splitAt c.id (matchLen page c.key (ids.drop s.total))).1 } })
            cut.ok head whole read done
          rw [lengths] at total
          obtain ⟨live', same⟩ := carried.live _ (live_of_mem head)
          refine ⟨path', carried.size, carried.ok, .refl, node ▸ live', ?_, ?_, ?_⟩
          · rw [node, same, total]
            simp only [RadixTree.headNode, RadixTree.splitPath, Function.update_self]
            rw [parent, along, further]
          · rw [total]
            change s.total + _ ≤ ids.length
            omega
          · rw [total]
            exact carried.deepest _ _ (cut.deepest _ _ deepest)
        · rw [if_neg below] at done
          have all : matchLen page c.key (ids.drop s.total) = c.key.length :=
            Nat.le_antisymm fits.le_edge (Nat.not_lt.mp below)
          rw [all] at room further
          rw [List.take_length] at further
          obtain ⟨s₁, entered, rest⟩ := Option.bind_eq_some_iff.mp done
          obtain ⟨⟨path₁, carried⟩, node, total⟩ := enter_carries ok mem whole read entered
          obtain ⟨live₁, same⟩ := carried.live _ (live_of_mem mem)
          have along₁ : path₁ s₁.node = ids.take s₁.total := by
            rw [node, same, total, ok.shaped.path_eq c mem, parent, along, further]
          have length₁ : (path₁ s₁.node).length = s₁.total := by
            rw [along₁, List.length_take, Nat.min_eq_left (by omega)]
          have live₁' : Live s₁.cache.tree.nodes s₁.node := node ▸ live₁
          have read₁ : page ∣ s₁.total := by
            rw [← length₁]
            exact carried.ok.shaped.dvd_length_path live₁'
          obtain ⟨path', size, arrived⟩ := ih carried.ok live₁' along₁ (by omega) (by omega) rest length₁ read₁
            fun deepest => ⟨path₁, rfl, carried.ok, .refl, live₁', along₁, by omega, deepest⟩
          exact ⟨path', size.trans carried.size, arrived⟩
    · rw [if_neg more] at done
      obtain rfl := Option.some.inj done
      exact stay (deepest_of_short (by omega))

end

/-! ## The rest of the key -/

variable {ids : List Nat} {kv : List Int}

theorem addChild_ok (ok : c.tree.Ok page path) {u new : Nat}
    {tombstone : Bool} (live : Live c.tree.nodes u) (nonempty : ids ≠ []) (whole : page ∣ ids.length)
    (apart : ∀ n ∈ c.tree.nodes, n.parent = u → n.key.take page ≠ ids.take page)
    (done : c.addChild u ids kv tombstone = some (c', new)) :
    c'.pageSize = c.pageSize ∧ (∃ path', c'.tree.Ok page path') ∧ Live c'.tree.nodes new ∧
      ∀ n ∈ c'.tree.nodes, n.parent ≠ new := by
  unfold addChild at done
  split at done
  case isFalse => cases done
  case isTrue lengths =>
    cases done
    have fresh := ok.new
    refine ⟨rfl, ⟨_, ok.addChild live nonempty whole ?_ apart⟩, ?_, ?_⟩
    · exact lengths.symm
    · exact .inr ⟨_, List.mem_append_right _ (List.mem_singleton_self _), rfl⟩
    · intro n mem same
      rcases mem_concat mem with mem | mem
      · exact (ok.shaped.parent n mem).ne_of_new fresh same
      · rw [mem] at same
        exact live.ne_of_new fresh same

theorem addSuffix_ok (ok : c.tree.Ok page path) {u boundary : Nat}
    (live : Live c.tree.nodes u) (whole : page ∣ ids.length) (cut : page ∣ boundary)
    (below : boundary < ids.length)
    (apart : ∀ n ∈ c.tree.nodes, n.parent = u → n.key.take page ≠ ids.take page)
    (done : c.addSuffix u ids kv boundary = some c') :
    c'.pageSize = c.pageSize ∧ ∃ path', c'.tree.Ok page path' := by
  unfold addSuffix at done
  split at done
  case isTrue positive =>
    obtain ⟨⟨c₁, new⟩, first, rest⟩ := Option.bind_eq_some_iff.mp done
    obtain ⟨⟨c₂, last⟩, second, rfl⟩ := Option.map_eq_some_iff.mp rest
    have pages : page ≤ boundary := Nat.le_of_dvd positive cut
    obtain ⟨size, ⟨path₁, ok₁⟩, live₁, bare⟩ := addChild_ok ok live
      (List.ne_nil_of_length_pos (by rw [List.length_take]; omega))
      (by rw [List.length_take, Nat.min_eq_left below.le]; exact cut)
      (fun n mem parent => by
        rw [List.take_take, Nat.min_eq_left pages]
        exact apart n mem parent) first
    obtain ⟨size₂, ok₂, -⟩ := addChild_ok ok₁ live₁
      (List.ne_nil_of_length_pos (by rw [List.length_drop]; omega))
      (by rw [List.length_drop]; exact Nat.dvd_sub whole cut)
      (fun n mem parent => absurd parent (bare n mem)) second
    exact ⟨size₂.trans size, ok₂⟩
  case isFalse =>
    obtain ⟨⟨c₁, new⟩, first, rfl⟩ := Option.map_eq_some_iff.mp done
    obtain ⟨size, ok₁, -⟩ := addChild_ok ok live (List.ne_nil_of_length_pos (by omega)) whole apart first
    exact ⟨size, ok₁⟩

theorem dvd_min {n m : Nat} (left : page ∣ n) (right : page ∣ m) : page ∣ min n m := by
  rcases Nat.le_total n m with le | le
  · rwa [Nat.min_eq_left le]
  · rwa [Nat.min_eq_right le]

theorem insert_ok (ok : c.tree.Ok c.pageSize path)
    {swaEvictedSeqlen updateKvAfterLen : Nat} {moveSwa : Bool}
    {answer : Nat × List Int × List (List Int × List Int)} (whole : c.pageSize ∣ swaEvictedSeqlen)
    (done : c.insert ids kv swaEvictedSeqlen updateKvAfterLen moveSwa = some (c', answer)) :
    ∃ path', c'.tree.Ok c'.pageSize path' := by
  have positive := ok.shaped.positive
  have short := alignDown_le ids.length c.pageSize
  have pages := dvd_alignDown ids.length c.pageSize
  unfold insert at done
  dsimp only at done
  obtain ⟨s, walked, rest⟩ := Option.bind_eq_some_iff.mp done
  have length_key : (ids.take (alignDown ids.length c.pageSize)).length = alignDown ids.length c.pageSize := by
    rw [List.length_take, Nat.min_eq_left short]
  obtain ⟨path', size, ok', arrived⟩ := Insertion.walk_spec ok whole (live_root _)
    (by simp [ok.shaped.root]) (Nat.zero_le _) (by simp) walked
  change s.cache.pageSize = c.pageSize at size
  split at rest
  case isTrue more =>
    obtain ⟨c₁, added, same⟩ := Option.map_eq_some_iff.mp rest
    cases same
    have hangs := arrived.hang ok' (by rw [length_key]; exact pages) (by rw [length_key]; omega)
    have read := arrived.whole ok'
    have room : 0 < ((ids.take (alignDown ids.length c.pageSize)).drop s.total).length :=
      List.length_pos_iff.mpr hangs.nonempty
    obtain ⟨size', path'', ok''⟩ := addSuffix_ok ok' arrived.live hangs.whole
      (dvd_min (Nat.dvd_sub (dvd_min whole pages) read) (Nat.dvd_sub hangs.whole dvd_rfl)) (by omega)
      hangs.apart added
    exact ⟨path'', by rwa [size', size]⟩
  case isFalse =>
    cases rest
    exact ⟨path', by rwa [size]⟩

end SWARadixCache

end FreeSwarm.KvCache
