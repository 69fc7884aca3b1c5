import FreeSwarm.KvCache.SwaRadix

/-!
# Matching a prefix that can be reused

A match only splits and stamps. Its walk goes down the nodes of the longest cached prefix, and what it counts on
the way is a scan of live and dead pieces, so it ends with the longest prefix whose last window of tokens is
live. What the tree records of a token, its slot and whether it is live, is as before.
-/

namespace FreeSwarm.KvCache

open FreeSwarm.Foundation FreeSwarm.Foundation.PathTree FreeSwarm.Foundation.LiveRun

def piece (n : RadixTreeNode) : Piece := { length := n.key.length, dead := n.data.swaTombstone }

def endOf (trail : List RadixTreeNode) : Nat := (trail.getLast?.map fun n => n.id).getD 0

@[simp]
theorem endOf_concat (trail : List RadixTreeNode) (n : RadixTreeNode) : endOf (trail ++ [n]) = n.id := by
  simp [endOf]

namespace RadixTree

variable {page : Nat} {t t' : RadixTree} {path path' : Nat → List Nat}

/-- The slots of the tokens on the way from the root to a node. -/
def slotsOf (t : RadixTree) (u : Nat) : List Int := (t.up u).reverse.flatMap fun n => n.data.value

/-- Whether each token on the way from the root to a node is dead. -/
def deadTo (t : RadixTree) (u : Nat) : List Bool := deadOf ((t.up u).reverse.map piece)

def Records (t : RadixTree) (tokens : List Nat) (slot : Int) (live : Bool) : Prop :=
  ∃ n ∈ t.nodes, ∃ j, j < n.key.length ∧ tokens = t.tokensOf n.parent ++ n.key.take (j + 1) ∧
    n.data.value[j]? = some slot ∧ live = !n.data.swaTombstone

/-! ## Stamps -/

theorem up_modify (t : RadixTree) (id : Nat) (f : RadixData → RadixData) (u : Nat) :
    (t.modify id f).up u =
      (t.up u).map fun n => if n.id = id then { n with data := f n.data } else n := by
  have both : (t.modify id f).nodes ++ (t.modify id f).dropped =
      PathTree.modify (t.nodes ++ t.dropped) id f := by simp [modify, PathTree.modify]
  have many : (t.modify id f).nodes.length + (t.modify id f).dropped.length =
      t.nodes.length + t.dropped.length := by simp [modify, PathTree.modify]
  rw [up, up, both, many]
  refine chain_map (fun v => lookup_modify _ id v f) (fun n => ?_) _ u
  split <;> rfl

variable (t) in
theorem touch_way (id tic u : Nat) : (t.touch id tic).tokensOf u = t.tokensOf u ∧
    (t.touch id tic).slotsOf u = t.slotsOf u ∧ (t.touch id tic).deadTo u = t.deadTo u := by
  rw [tokensOf, slotsOf, deadTo, touch, up_modify]
  refine ⟨?_, ?_, ?_⟩
  · rw [← List.map_reverse, List.flatMap_map, tokensOf]
    refine List.flatMap_congr fun n _ => ?_
    split <;> rfl
  · rw [← List.map_reverse, List.flatMap_map, slotsOf]
    refine List.flatMap_congr fun n _ => ?_
    split <;> rfl
  · rw [← List.map_reverse, List.map_map, deadTo]
    refine congrArg deadOf (List.map_congr_left fun n _ => ?_)
    rw [Function.comp_apply]
    split <;> rfl

theorem stamps (page : Nat) (t : RadixTree) (path : Nat → List Nat) (base : Nat)
    (entries : List (RadixTreeNode × Nat)) :
    Refined page t path
      (entries.foldl (fun t entry => t.touch entry.1.id (base - entry.2)) t) path ∧
    (∀ u, Live (entries.foldl (fun t entry => t.touch entry.1.id (base - entry.2)) t).nodes u ↔
      Live t.nodes u) ∧
    ∀ u, (entries.foldl (fun t entry => t.touch entry.1.id (base - entry.2)) t).tokensOf u = t.tokensOf u ∧
      (entries.foldl (fun t entry => t.touch entry.1.id (base - entry.2)) t).slotsOf u = t.slotsOf u ∧
      (entries.foldl (fun t entry => t.touch entry.1.id (base - entry.2)) t).deadTo u = t.deadTo u := by
  induction entries using List.reverseRecOn with
  | nil => exact ⟨.refl, fun u => Iff.rfl, fun u => ⟨rfl, rfl, rfl⟩⟩
  | append_singleton entries entry ih =>
    obtain ⟨refined, live, same⟩ := ih
    rw [List.foldl_append, List.foldl_cons, List.foldl_nil]
    refine ⟨.touch _ _ refined, fun u => live_touch.trans (live u), fun u => ?_⟩
    obtain ⟨tokens, slots, dead⟩ := touch_way
      (entries.foldl (fun t entry => t.touch entry.1.id (base - entry.2)) t) entry.1.id (base - entry.2) u
    obtain ⟨tokens', slots', dead'⟩ := same u
    exact ⟨tokens.trans tokens', slots.trans slots', dead.trans dead'⟩

/-! ## Records -/

def Held (nodes : List RadixTreeNode) (path : Nat → List Nat) (tokens : List Nat) (slot : Int) (live : Bool) :
    Prop :=
  ∃ n ∈ nodes, ∃ j, j < n.key.length ∧ tokens = path n.parent ++ n.key.take (j + 1) ∧
    n.data.value[j]? = some slot ∧ live = !n.data.swaTombstone

variable {tokens : List Nat}

theorem Ok.records_iff (ok : t.Ok page path) {slot : Int} {live : Bool} :
    t.Records tokens slot live ↔ Held t.nodes path tokens slot live := by
  refine exists_congr fun n => and_congr_right fun mem => exists_congr fun j => ?_
  rw [ok.tokensOf_eq (ok.shaped.parent n mem)]

theorem held_touch {id tic : Nat} {slot : Int} {live : Bool} :
    Held (t.touch id tic).nodes path tokens slot live ↔ Held t.nodes path tokens slot live := by
  rw [touch_nodes]
  constructor
  · rintro ⟨x, mem, j, rest⟩
    rcases mem_modify.mp mem with ⟨old, -⟩ | ⟨n, old, -, rfl⟩
    · exact ⟨x, old, j, rest⟩
    · exact ⟨n, old, j, rest⟩
  · rintro ⟨n, mem, j, rest⟩
    by_cases same : n.id = id
    · exact ⟨_, mem_modify.mpr (.inr ⟨n, mem, same, rfl⟩), j, rest⟩
    · exact ⟨n, mem_modify.mpr (.inl ⟨mem, same⟩), j, rest⟩

theorem held_splitAt (ok : t.Ok page path) {c : RadixTreeNode} {pos : Nat} (mem : c ∈ t.nodes)
    (below : pos < c.key.length) {slot : Int} {live : Bool} :
    Held (t.splitAt c.id pos).1.nodes (t.splitPath path c pos) tokens slot live ↔
      Held t.nodes path tokens slot live := by
  have kept : ∀ u, Live t.nodes u → t.splitPath path c pos u = path u := fun u live =>
    Function.update_of_ne (live.ne_of_new ok.new) _ _
  have fresh : t.splitPath path c pos t.counter = path c.parent ++ c.key.take pos :=
    Function.update_self ..
  constructor
  · rintro ⟨x, inside, j, short, same, found, alive⟩
    rcases mem_split.mp inside with ⟨old, -⟩ | ⟨n, hn, names, rfl | rfl⟩
    · rw [kept _ (ok.shaped.parent x old)] at same
      exact ⟨x, old, j, short, same, found, alive⟩
    · obtain rfl := ok.shaped.eq_of_id hn mem names
      simp only [List.length_take] at short
      simp only [RadixData.head, RadixData.fresh] at found alive
      rw [List.getElem?_take, if_pos (by omega)] at found
      refine ⟨n, hn, j, by omega, ?_, found, alive⟩
      simp only at same
      rw [same, kept _ (ok.shaped.parent n hn), List.take_take, Nat.min_eq_left (by omega)]
    · obtain rfl := ok.shaped.eq_of_id hn mem names
      simp only [List.length_drop] at short
      simp only [RadixData.tail] at found alive
      rw [List.getElem?_drop] at found
      refine ⟨n, hn, pos + j, by omega, ?_, found, alive⟩
      simp only at same
      rw [same, fresh, List.append_assoc, Nat.add_assoc, ← List.take_add]
  · rintro ⟨n, hn, j, short, same, found, alive⟩
    by_cases names : n.id = c.id
    · obtain rfl := ok.shaped.eq_of_id hn mem names
      rcases Nat.lt_or_ge j pos with upper | lower
      · refine ⟨_, mem_split.mpr (.inr ⟨n, hn, rfl, .inl rfl⟩), j, ?_, ?_, ?_, alive⟩
        · rw [List.length_take]
          omega
        · rw [same, kept _ (ok.shaped.parent n hn), List.take_take, Nat.min_eq_left (by omega)]
        · simp only [RadixData.head, RadixData.fresh]
          rw [List.getElem?_take, if_pos upper]
          exact found
      · refine ⟨_, mem_split.mpr (.inr ⟨n, hn, rfl, .inr rfl⟩), j - pos, ?_, ?_, ?_, alive⟩
        · rw [List.length_drop]
          omega
        · rw [same, fresh, List.append_assoc, ← List.take_add]
          congr 2
          omega
        · simp only [RadixData.tail]
          rw [List.getElem?_drop, Nat.add_sub_cancel' lower]
          exact found
    · refine ⟨n, mem_split.mpr (.inl ⟨hn, names⟩), j, short, ?_, found, alive⟩
      rw [kept _ (ok.shaped.parent n hn)]
      exact same

theorem Refined.records_kept_iff (r : Refined page t path t' path') (ok : t.Ok page path) :
    ∀ tokens slot live, Held t'.nodes path' tokens slot live ↔ Held t.nodes path tokens slot live := by
  refine (r.preserves ok (I := fun t' path' => ∀ tokens slot live,
    Held t'.nodes path' tokens slot live ↔ Held t.nodes path tokens slot live)
    (fun _ _ _ => Iff.rfl) ?_ ?_).2
  · intro t₁ path₁ id tic _ same tokens slot live
    exact held_touch.trans (same tokens slot live)
  · intro t₁ path₁ c pos ok₁ mem _ below _ same tokens slot live
    exact (held_splitAt ok₁ mem below).trans (same tokens slot live)

/-! ## The way down to a node -/

def Way (t : RadixTree) (u : Nat) (trail : List RadixTreeNode) : Prop := Climb t.nodes u trail.reverse

namespace Way

variable {u : Nat} {trail : List RadixTreeNode}

theorem up_eq (w : Way t u trail) (ok : t.Ok page path) : t.up u = trail.reverse :=
  (ok.climb (Climb.live w)).unique ok.shaped w

theorem reads (w : Way t u trail) (ok : t.Ok page path) :
    t.slotsOf u = (trail.flatMap fun n => n.data.value) ∧ t.deadTo u = deadOf (trail.map piece) := by
  rw [slotsOf, deadTo, w.up_eq ok, List.reverse_reverse]
  exact ⟨rfl, rfl⟩

theorem take (w : Way t u trail) (k : Nat) : Way t (endOf (trail.take k)) (trail.take k) := by
  rcases List.eq_nil_or_concat (trail.take k) with none | ⟨front, n, split⟩
  · rw [none]
    exact .root
  · rw [split, List.concat_eq_append, endOf_concat, Way, List.reverse_append, List.reverse_singleton,
      List.singleton_append]
    have whole : trail.reverse = (trail.drop k).reverse ++ n :: front.reverse := by
      have parts := congrArg List.reverse (List.take_append_drop k trail)
      rw [split] at parts
      simpa using parts.symm
    rw [Way, whole] at w
    exact w.rest

theorem exists_take (w : Way t u trail) (ok : t.Ok page path) {v : Nat} (live : Live t.nodes v)
    (above : path v <+: path u) : ∃ k ≤ trail.length, endOf (trail.take k) = v := by
  rcases live with rfl | ⟨n, mem, rfl⟩
  · exact ⟨0, Nat.zero_le _, rfl⟩
  · have inside : n ∈ trail := List.mem_reverse.mp ((Climb.mem_iff ok.shaped w).mpr ⟨mem, above⟩)
    obtain ⟨front, back, rfl⟩ := List.append_of_mem inside
    refine ⟨front.length + 1, by simp, ?_⟩
    have first : (front ++ n :: back).take (front.length + 1) = front ++ [n] := by
      rw [List.take_length_add_append]
      rfl
    rw [first, endOf_concat]

theorem keys (w : Way t u trail) (ok : t.Ok page path) : (trail.flatMap fun n => n.key) = path u := by
  rw [← Climb.keys ok.shaped w, List.reverse_reverse]

theorem prefix_take (w : Way t u trail) (ok : t.Ok page path) (k : Nat) :
    path (endOf (trail.take k)) <+: path u := by
  rw [← (w.take k).keys ok, ← w.keys ok]
  nth_rewrite 2 [← List.take_append_drop k trail]
  rw [List.flatMap_append]
  exact List.prefix_append _ _

theorem length_slots (w : Way t u trail) (ok : t.Ok page path) :
    (trail.flatMap fun n => n.data.value).length = (path u).length := by
  rw [← w.keys ok, List.length_flatMap, List.length_flatMap]
  congr 1
  refine List.map_congr_left fun n mem => ?_
  exact ok.values n (Climb.subset w n (List.mem_reverse.mpr mem))

theorem length_dead (w : Way t u trail) (ok : t.Ok page path) :
    (deadOf (trail.map piece)).length = (path u).length := by
  rw [← w.keys ok, deadOf, List.length_flatMap, List.length_flatMap, List.map_map]
  simp [Function.comp_def, piece]

theorem held (w : Way t u trail) (ok : t.Ok page path) {j : Nat} {slot : Int}
    (found : (trail.flatMap fun n => n.data.value)[j]? = some slot) :
    ∃ dead, (deadOf (trail.map piece))[j]? = some dead ∧
      Held t.nodes path ((path u).take (j + 1)) slot (!dead) := by
  have general : ∀ v above, Climb t.nodes v above → ∀ j slot,
      (above.reverse.flatMap fun n => n.data.value)[j]? = some slot →
      ∃ dead, (deadOf (above.reverse.map piece))[j]? = some dead ∧
        Held t.nodes path ((path v).take (j + 1)) slot (!dead) := by
    intro v above climb
    induction climb with
    | root => simp
    | @node n above mem climb ih =>
      intro j slot found
      have way : Way t n.parent above.reverse := by
        rw [Way, List.reverse_reverse]
        exact climb
      have lengths := way.length_dead ok
      have slots : (above.reverse.flatMap fun n => n.data.value).length = (path n.parent).length :=
        way.length_slots ok
      rw [List.reverse_cons, List.flatMap_append, List.flatMap_singleton] at found
      rw [List.reverse_cons, List.map_append, List.map_singleton, deadOf_concat, ok.shaped.path_eq n mem]
      rcases Nat.lt_or_ge j (path n.parent).length with early | late
      · rw [List.getElem?_append_left (by omega)] at found
        obtain ⟨dead, seen, held⟩ := ih j slot found
        refine ⟨dead, ?_, ?_⟩
        · rw [List.getElem?_append_left (by omega)]
          exact seen
        · rw [List.take_append_of_le_length (by omega)]
          exact held
      · rw [List.getElem?_append_right (by omega), slots] at found
        obtain ⟨inside, -⟩ := List.getElem?_eq_some_iff.mp found
        rw [ok.values n mem] at inside
        refine ⟨n.data.swaTombstone, ?_, n, mem, j - (path n.parent).length, inside, ?_, found, rfl⟩
        · rw [List.getElem?_append_right (by omega), lengths]
          simp [piece, inside]
        · rw [List.take_append, List.take_of_length_le (by omega)]
          congr 2
          omega
  have reversed := general u trail.reverse w j slot
  rw [List.reverse_reverse] at reversed
  exact reversed found

end Way

theorem Way.endOf_eq {u : Nat} {trail : List RadixTreeNode} (w : Way t u trail) : endOf trail = u := by
  generalize reversed : trail.reverse = above at w
  rw [Way, reversed] at w
  cases w with
  | root =>
    rw [List.reverse_eq_nil_iff.mp reversed]
    rfl
  | @node n above mem climb =>
    rw [← List.reverse_reverse trail, reversed, List.reverse_cons, endOf_concat]

end RadixTree

namespace SWARadixCache

namespace MatchWalk

variable {page window : Nat} {t t' : RadixTree} {path path' path'' : Nat → List Nat} {ids : List Nat}
  {w : MatchWalk} {trail : List RadixTreeNode}

def scan (w : MatchWalk) : Scan :=
  { since := w.matchSinceTomb, count := w.value.length, best := w.bestValueLen }

theorem commit_eq (window : Nat) (w : MatchWalk) : w.commit window =
    { w with
      bestValueLen := (w.commit window).bestValueLen
      bestNode := (w.commit window).bestNode } := by
  unfold commit
  split <;> rfl

@[simp]
theorem meet_tree (w : MatchWalk) (child : RadixTreeNode) : (w.meet window child).tree = w.tree := by
  unfold meet
  rw [commit_eq]
  split <;> rfl

@[simp]
theorem meet_value (w : MatchWalk) (child : RadixTreeNode) : (w.meet window child).value = w.value := by
  unfold meet
  rw [commit_eq]
  split <;> rfl

@[simp]
theorem meet_prefixPos (w : MatchWalk) (child : RadixTreeNode) :
    (w.meet window child).prefixPos = w.prefixPos := by
  unfold meet
  rw [commit_eq]
  split <;> rfl

theorem scan_commit (w : MatchWalk) : (w.commit window).scan = w.scan.commit window := by
  unfold commit Scan.commit
  by_cases covered : covers window w.matchSinceTomb = true
  · rw [if_pos covered, if_pos (show covers window w.scan.since = true from covered)]
    rfl
  · rw [if_neg covered, if_neg (show ¬ covers window w.scan.since = true from covered)]

theorem scan_enter (w : MatchWalk) {child child' : RadixTreeNode} (tree : RadixTree)
    (same : child'.data.swaTombstone = child.data.swaTombstone) :
    ({ w.meet window child with
        tree := tree }.enter child').scan = w.scan.next window (piece child') := by
  unfold Scan.next
  cases dead : child.data.swaTombstone with
  | false => simp [scan, enter, meet, piece, same, dead]
  | true =>
    have best : (w.commit window).bestValueLen = _ := congrArg Scan.best (scan_commit w)
    simp only [scan, enter, meet_value, piece, same, dead, if_true, List.length_append, List.length_singleton]
    simp only [meet, dead, if_true]
    exact congrArg (Scan.mk (some 0) (w.value.length + 1)) best

/-- Where a walk is after the nodes of a trail. -/
structure Along (page window : Nat) (t : RadixTree) (path : Nat → List Nat) (ids : List Nat) (w : MatchWalk)
    (path' : Nat → List Nat) (trail : List RadixTreeNode) : Prop where
  refined : RadixTree.Refined page t path w.tree path'
  way : w.tree.Way w.node trail
  along : path' w.node = ids.take w.prefixPos
  inside : w.prefixPos ≤ ids.length
  value : w.value = trail.map fun n => n.data.value
  counted : w.scan = Scan.all window (trail.map piece)
  best : w.bestNode = endOf (trail.take w.bestValueLen)

theorem Along.start (ok : t.Ok page path) : Along page window t path ids (.start t) path [] :=
  { refined := .refl, way := .root, along := ok.shaped.root, inside := Nat.zero_le _, value := rfl,
    counted := rfl, best := rfl }

theorem pieces_nonempty (ok : t.Ok page path) {u : Nat} (way : t.Way u trail) :
    ∀ p ∈ trail.map piece, 0 < p.length := by
  intro p mem
  obtain ⟨n, hn, rfl⟩ := List.mem_map.mp mem
  exact List.length_pos_iff.mpr (ok.shaped.nonempty n (Climb.subset way n (List.mem_reverse.mpr hn)))

theorem Along.bestValueLen_le (a : Along page window t path ids w path' trail) (ok : t.Ok page path) :
    w.bestValueLen ≤ trail.length := by
  have inside := (knows_all window (pieces_nonempty (a.refined.live ok).1 a.way)).inside
  rw [← a.counted, List.length_map] at inside
  exact inside

theorem Along.commit_best (a : Along page window t path ids w path' trail) :
    (w.commit window).bestNode = endOf (trail.take (w.commit window).bestValueLen) := by
  unfold commit
  by_cases covered : covers window w.matchSinceTomb = true
  · simp only [if_pos covered]
    rw [a.value, List.length_map, List.take_length, a.way.endOf_eq]
  · simp only [if_neg covered]
    exact a.best

theorem Along.commit_longest (a : Along page window t path ids w path' trail) (ok : t.Ok page path) :
    (w.commit window).bestValueLen ≤ trail.length ∧
      Trailing window (deadOf ((trail.take (w.commit window).bestValueLen).map piece)) ∧
      ∀ k ≤ trail.length, Trailing window (deadOf ((trail.take k).map piece)) →
        k ≤ (w.commit window).bestValueLen := by
  obtain ⟨inside, sound, longest⟩ := longest_all window
    (pieces_nonempty (a.refined.live ok).1 a.way)
  rw [← a.counted, ← scan_commit, List.length_map] at inside longest
  rw [← a.counted, ← scan_commit] at sound
  refine ⟨inside, ?_, fun k below trailing => longest k below ?_⟩
  · rw [List.map_take]
    exact sound
  · rw [← List.map_take]
    exact trailing

theorem Along.enter (a : Along page window t path ids w path' trail) (ok : t.Ok page path)
    {child child' : RadixTreeNode} (refined : RadixTree.Refined page t path t' path'')
    (kept : ∀ m ∈ trail, m ∈ t'.nodes) (mem : child' ∈ t'.nodes) (parent : child'.parent = w.node)
    (along : path'' child'.id = ids.take (w.prefixPos + child'.key.length))
    (inside : w.prefixPos + child'.key.length ≤ ids.length)
    (same : child'.data.swaTombstone = child.data.swaTombstone) :
    Along page window t path ids
      ({ w.meet window child with
          tree := t' }.enter child') path'' (trail ++ [child']) := by
  have way : t'.Way child'.id (trail ++ [child']) := by
    rw [RadixTree.Way, List.reverse_append, List.reverse_singleton, List.singleton_append]
    refine .node mem (parent ▸ Climb.mono a.way fun m hm => kept m (List.mem_reverse.mp hm))
  refine { refined := refined, way := way, along := ?_, inside := ?_, value := ?_, counted := ?_, best := ?_ }
  · simpa [MatchWalk.enter] using along
  · simpa [MatchWalk.enter] using inside
  · simp [MatchWalk.enter, a.value]
  · rw [scan_enter w t' same, a.counted, List.map_append, List.map_singleton, Scan.all_concat]
  · have short : (w.meet window child).bestValueLen ≤ trail.length := by
      unfold meet
      split
      · exact (a.commit_longest ok).1
      · exact a.bestValueLen_le ok
    have best : (w.meet window child).bestNode = endOf (trail.take (w.meet window child).bestValueLen) := by
      unfold meet
      split
      · exact a.commit_best
      · exact a.best
    simp only [MatchWalk.enter]
    rw [List.take_append_of_le_length short, best]

theorem walk_spec (ok : t.Ok page path) {fuel : Nat} (a : Along page window t path ids w path' trail)
    (enough : ids.length ≤ w.prefixPos + fuel) :
    ∃ path'' trail', Along page window t path ids (walk page window ids fuel w) path'' trail' ∧
      Deepest page (walk page window ids fuel w).tree.nodes path'' ids
        (walk page window ids fuel w).prefixPos := by
  have positive := ok.shaped.positive
  induction fuel generalizing w path' trail with
  | zero =>
    rw [walk]
    exact ⟨path', trail, a, deepest_of_short (by omega)⟩
  | succ fuel ih =>
    have ok' := (a.refined.live ok).1
    have live : Live w.tree.nodes w.node := Climb.live a.way
    have length_node : (path' w.node).length = w.prefixPos := by
      rw [a.along, List.length_take, Nat.min_eq_left a.inside]
    simp only [walk]
    by_cases more : w.prefixPos < ids.length
    · rw [if_pos more]
      cases found : childAt page w.tree.nodes w.node (ids.drop w.prefixPos) with
      | none =>
        have here : path' w.node <+: ids := a.along ▸ List.take_prefix w.prefixPos ids
        have deepest := ok'.shaped.deepest_of_missing live here (length_node ▸ found)
        rw [length_node] at deepest
        exact ⟨path', trail, a, deepest⟩
      | some c =>
        obtain ⟨mem, parent, -⟩ := childAt_some found
        have fits := ok'.shaped.matches_child found
        have room := fits.le_rest
        have first := fits.page_le
        rw [List.length_drop] at room
        have further : ids.take w.prefixPos ++ c.key.take (matchLen page c.key (ids.drop w.prefixPos)) =
            ids.take (w.prefixPos + matchLen page c.key (ids.drop w.prefixPos)) := by
          rw [fits.same, List.take_add]
        have outside : ∀ m ∈ trail, m.id ≠ c.id := by
          intro m hm same
          have above := ((Climb.mem_iff ok'.shaped a.way).mp (List.mem_reverse.mpr hm)).2.length_le
          have longer := ok'.shaped.length_path mem
          have segment := ok'.shaped.page_le mem
          rw [same, longer, parent] at above
          omega
        have nodes : ∀ m ∈ trail, m ∈ w.tree.nodes := fun m hm =>
          Climb.subset a.way m (List.mem_reverse.mpr hm)
        simp only
        rw [if_neg (by omega : matchLen page c.key (ids.drop w.prefixPos) ≠ 0)]
        by_cases below : matchLen page c.key (ids.drop w.prefixPos) < c.key.length
        · rw [if_pos below]
          have cut := a.refined.split mem (by omega) below fits.whole
          have key : ids = path' c.parent ++ ids.drop w.prefixPos := by
            rw [parent, a.along, List.take_append_drop]
          have deepest := ok'.shaped.deepest_of_inside mem key fits below
          rw [parent, length_node] at deepest
          have lengths : (w.tree.headNode c (matchLen page c.key (ids.drop w.prefixPos))).key.length =
              matchLen page c.key (ids.drop w.prefixPos) := by
            simp only [RadixTree.headNode, List.length_take]
            omega
          refine ⟨_, _, a.enter ok cut (fun m hm => mem_split.mpr (.inl ⟨nodes m hm, outside m hm⟩))
            (mem_split.mpr (.inr ⟨c, mem, rfl, .inl rfl⟩)) parent ?_ ?_ rfl, ?_⟩
          · rw [lengths]
            simp only [RadixTree.headNode, RadixTree.splitPath, Function.update_self]
            rw [parent, a.along, further]
          · rw [lengths]
            omega
          · intro v hv
            have same : ({ w.meet window c with
                tree := (w.tree.splitAt c.id (matchLen page c.key (ids.drop w.prefixPos))).1 }.enter
                  (w.tree.headNode c (matchLen page c.key (ids.drop w.prefixPos)))).prefixPos =
                w.prefixPos + matchLen page c.key (ids.drop w.prefixPos) := by
              simp [MatchWalk.enter, lengths]
            rw [same]
            exact ok'.shaped.deepest_split mem ok'.new deepest v hv
        · rw [if_neg below]
          have whole : matchLen page c.key (ids.drop w.prefixPos) = c.key.length :=
            Nat.le_antisymm fits.le_edge (Nat.not_lt.mp below)
          rw [whole] at room further
          rw [List.take_length] at further
          have entered := a.enter ok a.refined nodes mem parent
            (by rw [ok'.shaped.path_eq c mem, parent, a.along, further]) (by omega)
            (rfl : c.data.swaTombstone = c.data.swaTombstone)
          have kept : { w.meet window c with
              tree := w.tree } = w.meet window c := by
            have tree : (w.meet window c).tree = w.tree := meet_tree w c
            rw [← tree]
          rw [kept] at entered
          refine ih entered ?_
          simp only [MatchWalk.enter, meet_prefixPos]
          omega
    · rw [if_neg more]
      exact ⟨path', trail, a, deepest_of_short (by omega)⟩

end MatchWalk

variable {c : SWARadixCache} {path : Nat → List Nat}

/-- What a match answers, about the tree before and the tree after it. -/
structure Matched (c : SWARadixCache) (ids : List Nat) (c' : SWARadixCache) (m : SWAMatch) : Prop where
  present : Live c'.tree.nodes m.node
  aligned : c.pageSize ∣ m.cachedLen
  inside : m.cachedLen ≤ ids.length
  along : c'.tree.tokensOf m.node = ids.take m.cachedLen
  stored : m.kvIndices = c'.tree.slotsOf m.node
  length_eq : m.kvIndices.length = m.cachedLen
  recorded : ∀ j slot, m.kvIndices[j]? = some slot → ∃ live,
    c.tree.Records (ids.take (j + 1)) slot live ∧ (m.cachedLen ≤ j + c.slidingWindowSize → live = true)
  trailing : Trailing c.slidingWindowSize (c'.tree.deadTo m.node)
  longest : ∀ u, Live c'.tree.nodes u → c'.tree.tokensOf u <+: ids →
    Trailing c.slidingWindowSize (c'.tree.deadTo u) → (c'.tree.tokensOf u).length ≤ m.cachedLen
  kept : ∀ tokens slot live, c'.tree.Records tokens slot live ↔ c.tree.Records tokens slot live

theorem matchPrefix_refined (ok : c.tree.Ok c.pageSize path) (ids : List Nat) :
    ∃ path', RadixTree.Refined c.pageSize c.tree path (c.matchPrefix ids).1.tree path' := by
  have start : MatchWalk.Along c.pageSize c.slidingWindowSize c.tree path ids (.start c.tree) path [] := .start ok
  obtain ⟨path', trail, a, -⟩ := MatchWalk.walk_spec ok start (Nat.le_add_left ids.length _)
  refine ⟨path', a.refined.trans ?_⟩
  rw [matchPrefix, MatchWalk.commit_eq]
  exact (RadixTree.stamps _ _ path' _ _).1

theorem matchPrefix_spec (ok : c.tree.Ok c.pageSize path) (ids : List Nat) :
    Matched c ids (c.matchPrefix ids).1 (c.matchPrefix ids).2 := by
  have start : MatchWalk.Along c.pageSize c.slidingWindowSize c.tree path ids (.start c.tree) path [] := .start ok
  obtain ⟨path', trail, a, deepest⟩ := MatchWalk.walk_spec ok start (Nat.le_add_left ids.length _)
  rw [matchPrefix, MatchWalk.commit_eq]
  generalize MatchWalk.walk c.pageSize c.slidingWindowSize ids ids.length (.start c.tree) = w at a deepest
  have ok' := (a.refined.live ok).1
  obtain ⟨inside, sound, longest⟩ := a.commit_longest ok
  have best := a.commit_best
  generalize (w.commit c.slidingWindowSize).bestValueLen = k at best inside sound longest
  generalize (w.commit c.slidingWindowSize).bestNode = node at best
  subst best
  unfold stampPath nextTick
  dsimp only
  obtain ⟨refined, live, same⟩ := RadixTree.stamps c.pageSize w.tree path' ((c.clk + 1) * eventStride)
    (w.tree.up (endOf (trail.take k))).zipIdx
  generalize List.foldl _ w.tree (w.tree.up (endOf (trail.take k))).zipIdx = stamped at refined live same ⊢
  have way := a.way.take k
  have present : Live w.tree.nodes (endOf (trail.take k)) := Climb.live way
  -- The slots, and the tokens they belong to.
  have slots : (w.value.take k).flatten = w.tree.slotsOf (endOf (trail.take k)) := by
    rw [(way.reads ok').1, a.value, ← List.map_take, List.flatMap_def]
  have lengths : (w.value.take k).flatten.length = (path' (endOf (trail.take k))).length := by
    rw [slots, (way.reads ok').1]
    exact way.length_slots ok'
  have whole : path' w.node <+: ids := a.along ▸ List.take_prefix _ _
  have along : path' (endOf (trail.take k)) <+: ids := (a.way.prefix_take ok' k).trans whole
  have read : path' (endOf (trail.take k)) = ids.take (w.value.take k).flatten.length := by
    rw [lengths]
    exact List.prefix_iff_eq_take.mp along
  have page_dvd : c.pageSize ∣ w.prefixPos := by
    have pages := ok'.shaped.dvd_length_path (Climb.live a.way)
    rwa [a.along, List.length_take, Nat.min_eq_left a.inside] at pages
  refine { present := (live _).mpr present, aligned := ?_, inside := ?_, along := ?_, stored := ?_,
           length_eq := rfl, recorded := ?_, trailing := ?_, longest := ?_, kept := ?_ }
  · rw [lengths]
    exact ok'.shaped.dvd_length_path present
  · rw [lengths]
    exact along.length_le
  · exact (same _).1.trans ((ok'.tokensOf_eq present).trans read)
  · exact slots.trans (same _).2.1.symm
  · intro j slot found
    rw [a.value, ← List.map_take, ← List.flatMap_def] at found
    obtain ⟨dead, seen, held⟩ := way.held ok' found
    have short := (List.getElem?_eq_some_iff.mp seen).1
    rw [way.length_dead ok', ← lengths] at short
    refine ⟨!dead, ok.records_iff.mpr ((a.refined.records_kept_iff ok _ _ _).mp ?_), fun late => ?_⟩
    · rw [read, List.take_take, Nat.min_eq_left (by omega)] at held
      exact held
    · have alive := sound.live seen (by rw [way.length_dead ok', ← lengths]; exact late)
      rw [alive, Bool.not_false]
  · rw [(same _).2.2, (way.reads ok').2]
    exact sound
  · intro u there upward trailing
    have there' := (live u).mp there
    rw [(same u).1, ok'.tokensOf_eq there'] at upward ⊢
    have reached := ok'.shaped.length_le_of_deepest deepest page_dvd there' upward
    have above : path' u <+: path' w.node := by
      refine List.prefix_of_prefix_length_le upward whole ?_
      rw [a.along, List.length_take, Nat.min_eq_left a.inside]
      exact reached
    obtain ⟨k', below, rfl⟩ := a.way.exists_take ok' there' above
    have alive := trailing
    rw [(same _).2.2, ((a.way.take k').reads ok').2] at alive
    have least := longest k' below alive
    have earlier := way.prefix_take ok' k'
    rw [List.take_take, Nat.min_eq_left least] at earlier
    exact earlier.length_le.trans_eq lengths.symm
  · intro tokens slot alive
    have total := a.refined.trans refined
    exact ((total.live ok).1.records_iff.trans (total.records_kept_iff ok tokens slot alive)).trans ok.records_iff.symm

end SWARadixCache

end FreeSwarm.KvCache
