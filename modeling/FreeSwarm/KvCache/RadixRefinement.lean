import FreeSwarm.KvCache.RadixFlat

/-!
# Every run of the plain prefix cache is a run of the flat trie

The answers of the cache to any sequence of calls, with any locks, are answers that the flat trie
gives. Which entries an eviction takes off is up to the cache; that they are off together with what
was below them, and that their slots are returned, is not.
-/

namespace FreeSwarm.KvCache

open FreeSwarm.Foundation FreeSwarm.Foundation.PathTree

/-- What a caller learns from a call. -/
inductive Answer where
  | matched (cachedLen : Nat) (indices : Option (List Int))
  | inserted (cachedLen handleLen : Nat)
  | done
  | evicted (indices : List Int)

namespace RadixPrefixCache

def call (c : RadixPrefixCache) : Call → Option (RadixPrefixCache × Answer)
  | .matchPrefix ids tic =>
    let (c', h) := c.matchPrefix ids tic
    some (c', .matched h.cachedLen (c'.getMatchedIndices h))
  | .insertPrefix ids indices tic now =>
    (c.insertPrefix ids indices tic now).map fun (c', prefixLen, h) =>
      (c', .inserted prefixLen h.cachedLen)
  | .lock handle => (c.lockHandle handle false).map fun c' => (c', .done)
  | .unlock handle => (c.lockHandle handle true).map fun c' => (c', .done)
  | .evict size tie => (c.evict size tie).map fun (c', indices) => (c', .evicted indices)

def calls : RadixPrefixCache → List Call → Option (RadixPrefixCache × List Answer)
  | c, [] => some (c, [])
  | c, first :: rest =>
    (c.call first).bind fun (c', a) => (calls c' rest).map fun (c'', as) => (c'', a :: as)

end RadixPrefixCache

inductive FlatStep (page : Nat) (m : PageTrie Nat Int) :
    Call → Answer → PageTrie Nat Int → Prop where
  | matched (ids : List Nat) (tic : Nat) :
    FlatStep page m (.matchPrefix ids tic)
      (.matched (m.longest page ids) (if m.longest page ids = 0 then none
        else some (m.stored page (ids.take (m.longest page ids))))) m
  | inserted (ids : List Nat) (indices : List Int) (tic now : Nat) :
    FlatStep page m (.insertPrefix ids indices tic now)
      (.inserted (m.longest page ids) (alignDown ids.length page)) (m.store page ids indices)
  | locked (handle : RadixCacheHandle) : FlatStep page m (.lock handle) .done m
  | unlocked (handle : RadixCacheHandle) : FlatStep page m (.unlock handle) .done m
  | evicted (size : Nat) (tie : List RadixTreeNode → Nat) (gone : List (List Nat)) :
    gone.Nodup → (∀ p ∈ gone, (m p).isSome) → (m.drop gone).Closed page →
    size ≤ (gone.flatMap fun p => (m p).getD []).length →
    FlatStep page m (.evict size tie) (.evicted (gone.flatMap fun p => (m p).getD [])) (m.drop gone)

inductive FlatRun (page : Nat) : PageTrie Nat Int → List Call → List Answer → PageTrie Nat Int →
    Prop where
  | nil {m : PageTrie Nat Int} : FlatRun page m [] [] m
  | cons {m m' m'' : PageTrie Nat Int} {call : Call} {answer : Answer} {calls : List Call}
    {answers : List Answer} :
    FlatStep page m call answer m' → FlatRun page m' calls answers m'' →
    FlatRun page m (call :: calls) (answer :: answers) m''

namespace RadixPrefixCache

open RadixTree

variable {c c' : RadixPrefixCache} {path : Nat → List Nat} {m : PageTrie Nat Int}

/-! ## One call -/

theorem matchPrefix_flat (h : Represents c.pageSize c.tree path m) (ids : List Nat) (tic : Nat) :
    ∃ c' path', c.call (.matchPrefix ids tic) = some (c', .matched (m.longest c.pageSize ids)
        (if m.longest c.pageSize ids = 0 then none
          else some (m.stored c.pageSize (ids.take (m.longest c.pageSize ids))))) ∧
      c'.pageSize = c.pageSize ∧ Represents c.pageSize c'.tree path' m := by
  obtain ⟨path', arrived⟩ := walk_spec h.ok tic ids
  have after := arrived.refined.represents h
  have longest := arrived.longest h.ok after List.prefix_rfl (alignDown_le _ _)
  refine ⟨(c.matchPrefix ids tic).1, path', ?_, rfl, after⟩
  have slots : (c.matchPrefix ids tic).1.getMatchedIndices (c.matchPrefix ids tic).2 =
      if m.longest c.pageSize ids = 0 then none
      else some (m.stored c.pageSize (ids.take (m.longest c.pageSize ids))) := by
    rw [longest, ← arrived.along, ← after.stored_up arrived.live]
    exact if_congr (arrived.root_iff after.ok) rfl rfl
  rw [← slots, longest]
  rfl

theorem insertPrefix_flat (h : Represents c.pageSize c.tree path m) {ids : List Nat}
    {indices : List Int} {tic now prefixLen : Nat} {handle : RadixCacheHandle}
    (done : c.insertPrefix ids indices tic now = some (c', prefixLen, handle)) :
    ∃ path', prefixLen = m.longest c.pageSize ids ∧
      handle.cachedLen = alignDown ids.length c.pageSize ∧ c'.pageSize = c.pageSize ∧
      Represents c.pageSize c'.tree path' (m.store c.pageSize ids indices) := by
  simp only [insertPrefix] at done
  set insertLen := alignDown ids.length c.pageSize with hlen
  have short : insertLen ≤ ids.length := alignDown_le _ _
  have length_ids : (ids.take insertLen).length = insertLen := by
    rw [List.length_take, Nat.min_eq_left short]
  obtain ⟨path', arrived⟩ := walk_spec h.ok tic (ids.take insertLen)
  have after := arrived.refined.represents h
  have longest := arrived.longest h.ok after (List.take_prefix _ ids) length_ids.ge
  have length := arrived.length_path
  set r := c.tree.walk c.pageSize tic (ids.take insertLen) with hr
  split at done
  · rename_i more
    split at done
    · rename_i lengths
      obtain ⟨rfl, rfl, rfl⟩ : _ = c' ∧ _ = prefixLen ∧ _ = handle := by simpa using done
      have hang := arrived.hang h.ok (length_ids.symm ▸ dvd_alignDown _ _)
        (by rw [length_ids]; exact more)
      have added := after.ok.addChild
        (d := RadixData.fresh ((indices.take insertLen).drop r.2.2) now)
        arrived.live hang.nonempty hang.whole lengths.symm hang.apart
      refine ⟨_, longest.symm, rfl, rfl, after.addChild added arrived.live hang.along ?_⟩
      rw [length]
      rfl
    · exact absurd done (by simp)
  · rename_i complete
    obtain ⟨rfl, rfl, rfl⟩ : _ = c' ∧ _ = prefixLen ∧ _ = handle := by simpa using done
    refine ⟨path', longest.symm, rfl, rfl, ?_⟩
    rw [after.store_of_read arrived.live]
    · exact after
    · rw [arrived.along, not_not.mp complete, List.take_take, Nat.min_self]

theorem foldl_ref_flat {page : Nat} (up : List RadixTreeNode) {s : SizedTree}
    (h : Represents page s.tree path m) : Represents page (up.foldl SizedTree.ref s).tree path m := by
  induction up generalizing s with
  | nil => exact h
  | cons n up ih => exact ih (h.modify n.id fun _ => rfl)

theorem foldlM_unref_flat {page : Nat} (up : List RadixTreeNode) {s s' : SizedTree}
    (h : Represents page s.tree path m) (done : up.foldlM SizedTree.unref s = some s') :
    Represents page s'.tree path m := by
  induction up generalizing s with
  | nil => exact Option.some.inj done ▸ h
  | cons n up ih =>
    obtain ⟨s₁, first, rest⟩ := Option.bind_eq_some_iff.mp done
    rw [SizedTree.unref] at first
    split at first
    · cases first
      refine ih ?_ rest
      exact h.modify (f := fun d => { d with refCount := d.refCount - 1 }) n.id fun _ => rfl
    · exact absurd first (by simp)

variable {tie : List RadixTreeNode → Nat}

theorem evictLoop_flat {page size : Nat} {fuel : Nat}
    {leaves : List RadixTreeNode} {evicted : Nat} {indices out : List Int}
    (ok : c.tree.Ok page path) (heap : FreeLeaves c.tree.nodes leaves)
    (done : evictLoop size tie fuel c leaves evicted indices = some (c', out)) :
    ∃ gone, out = indices ++ (gone.flatMap fun n => n.data.value) ∧ c'.pageSize = c.pageSize ∧
      c'.tree.Ok page path ∧ c.tree.nodes.Perm (gone ++ c'.tree.nodes) ∧
      size ≤ evicted + (gone.flatMap fun n => n.data.value).length := by
  induction fuel generalizing c leaves evicted indices with
  | zero => exact absurd done (by simp [evictLoop])
  | succ fuel ih =>
    simp only [evictLoop] at done
    split at done
    · split at done
      · exact absurd done (by simp)
      · rename_i n rest popped
        have taken := heappop_perm popped
        obtain ⟨hn, leaf, free⟩ := (heap.mem_iff n).mp (taken.mem_iff.mpr (by simp))
        rw [if_pos ⟨free, leaf⟩] at done
        set c₁ : RadixPrefixCache := { c with
          sized := { c.sized with
            tree := c.tree.unlink n
            evictable := c.sized.evictable - n.key.length } } with hc₁
        obtain ⟨gone, values, pageSize, ok', perm, enough⟩ := @ih c₁ _ _ _ (ok.unlink hn leaf)
          (heap.step ok.shaped taken) done
        refine ⟨n :: gone, ?_, pageSize, ok', (perm_unlink ok.shaped hn).trans (perm.cons n), ?_⟩
        · rw [values, List.flatMap_cons, List.append_assoc]
        · have length := ok.values n hn
          rw [List.flatMap_cons, List.length_append]
          omega
    · obtain ⟨rfl, rfl⟩ : c = c' ∧ indices = out := by simpa using done
      exact ⟨[], by simp, rfl, ok, by simp, by simp; omega⟩

theorem evict_flat (h : Represents c.pageSize c.tree path m) {size : Nat}
    {out : List Int} (done : c.evict size tie = some (c', out)) :
    ∃ m', FlatStep c.pageSize m (.evict size tie) (.evicted out) m' ∧ c'.pageSize = c.pageSize ∧
      Represents c.pageSize c'.tree path m' := by
  obtain ⟨gone, rfl, pageSize, ok, perm, enough⟩ : ∃ gone : List RadixTreeNode,
      out = (gone.flatMap fun n => n.data.value) ∧ c'.pageSize = c.pageSize ∧
      c'.tree.Ok c.pageSize path ∧ c.tree.nodes.Perm (gone ++ c'.tree.nodes) ∧
      size ≤ (gone.flatMap fun n => n.data.value).length := by
    rw [evict] at done
    split at done
    · rename_i zero
      obtain ⟨rfl, rfl⟩ : c = c' ∧ [] = out := by simpa using done
      exact ⟨[], by simp, rfl, h.ok, by simp, by simp [zero]⟩
    · split at done
      · obtain ⟨gone, values, pageSize, ok, perm, enough⟩ :=
          evictLoop_flat h.ok (freeLeaves_collect h.ok.shaped) done
        exact ⟨gone, by simpa using values, pageSize, ok, perm, by simpa using enough⟩
      · exact absurd done (by simp)
  have after := h.of_perm ok perm
  have inside : ∀ n ∈ gone, n ∈ c.tree.nodes := fun n hn =>
    perm.mem_iff.mpr (List.mem_append_left _ hn)
  have entries : ∀ e ∈ gone.flatMap (pagesOf c.pageSize path), m e.1 = some e.2 := by
    intro e he
    obtain ⟨n, hn, here⟩ := List.mem_flatMap.mp he
    exact (h.entry _ _).mpr (List.mem_flatMap.mpr ⟨n, inside n hn, here⟩)
  have slots : (gone.flatMap fun n => n.data.value) =
      ((gone.flatMap (pagesOf c.pageSize path)).map Prod.fst).flatMap fun p => (m p).getD [] := by
    rw [List.flatMap_map, List.flatMap_assoc]
    refine List.flatMap_congr fun n hn => ?_
    rw [← flatMap_pagesOf h.ok (inside n hn)]
    refine List.flatMap_congr fun e he => ?_
    rw [entries e (List.mem_flatMap.mpr ⟨n, hn, he⟩), Option.getD_some]
  refine ⟨_, ?_, pageSize, after⟩
  rw [slots] at enough ⊢
  refine .evicted size tie _ ?_ ?_ after.closed enough
  · have distinct := ((perm.flatMap_right (pagesOf c.pageSize path)).map Prod.fst).nodup_iff.mp
      (nodup_pages h.ok)
    rw [List.flatMap_append, List.map_append] at distinct
    exact (List.nodup_append.mp distinct).1
  · intro p hp
    obtain ⟨e, he, rfl⟩ := List.mem_map.mp hp
    rw [entries e he, Option.isSome_some]

theorem call_flat (h : Represents c.pageSize c.tree path m) {next : Call} {answer : Answer}
    (done : c.call next = some (c', answer)) :
    ∃ path' m', FlatStep c.pageSize m next answer m' ∧ c'.pageSize = c.pageSize ∧
      Represents c.pageSize c'.tree path' m' := by
  cases next with
  | matchPrefix ids tic =>
    obtain ⟨c₁, path', done', pageSize, after⟩ := matchPrefix_flat h ids tic
    obtain ⟨rfl, rfl⟩ : c₁ = c' ∧ _ = answer := by simpa using done'.symm.trans done
    exact ⟨path', m, .matched ids tic, pageSize, after⟩
  | insertPrefix ids indices tic now =>
    obtain ⟨⟨c₁, prefixLen, handle⟩, done', same⟩ := Option.map_eq_some_iff.mp done
    obtain ⟨rfl, rfl⟩ : c₁ = c' ∧ _ = answer := by simpa using same
    obtain ⟨path', rfl, length, pageSize, after⟩ := insertPrefix_flat h done'
    exact ⟨path', _, length ▸ .inserted ids indices tic now, pageSize, after⟩
  | lock handle =>
    obtain ⟨rfl, rfl⟩ : _ = c' ∧ Answer.done = answer := by simpa [call, lockHandle] using done
    exact ⟨path, m, .locked handle, rfl, foldl_ref_flat _ h⟩
  | unlock handle =>
    obtain ⟨c₁, done', same⟩ := Option.map_eq_some_iff.mp done
    obtain ⟨rfl, rfl⟩ : c₁ = c' ∧ Answer.done = answer := by simpa using same
    obtain ⟨s', done'', rfl⟩ := Option.map_eq_some_iff.mp done'
    exact ⟨path, m, .unlocked handle, rfl, foldlM_unref_flat _ h done''⟩
  | evict size tie =>
    obtain ⟨⟨c₁, out⟩, done', same⟩ := Option.map_eq_some_iff.mp done
    obtain ⟨rfl, rfl⟩ : c₁ = c' ∧ _ = answer := by simpa using same
    obtain ⟨m', step, pageSize, after⟩ := evict_flat h done'
    exact ⟨path, m', step, pageSize, after⟩

/-! ## Any calls -/

theorem calls_flat {list : List Call} {answers : List Answer}
    (h : Represents c.pageSize c.tree path m) (done : c.calls list = some (c', answers)) :
    ∃ path' m', FlatRun c.pageSize m list answers m' ∧ c'.pageSize = c.pageSize ∧
      Represents c.pageSize c'.tree path' m' := by
  induction list generalizing c path m answers with
  | nil =>
    obtain ⟨rfl, rfl⟩ : c = c' ∧ [] = answers := by simpa [calls] using done
    exact ⟨path, m, .nil, rfl, h⟩
  | cons next list ih =>
    obtain ⟨⟨c₁, answer⟩, first, more⟩ := Option.bind_eq_some_iff.mp done
    obtain ⟨⟨c₂, rest⟩, later, same⟩ := Option.map_eq_some_iff.mp more
    obtain ⟨rfl, rfl⟩ : c₂ = c' ∧ answer :: rest = answers := by simpa using same
    obtain ⟨path₁, m₁, step, pageSize, after⟩ := call_flat h first
    obtain ⟨path₂, m₂, run, pageSize', final⟩ := ih (pageSize ▸ after) later
    exact ⟨path₂, m₂, .cons step (pageSize ▸ run), pageSize'.trans pageSize, pageSize ▸ final⟩

def flatAnswer (page : Nat) (m : PageTrie Nat Int) (ids : List Nat) : Answer :=
  .matched (m.longest page ids) (if m.longest page ids = 0 then none
    else some (m.stored page (ids.take (m.longest page ids))))

theorem answers_flat (h : Represents c.pageSize c.tree path m) (ids : List Nat) (tic : Nat) :
    (c.call (.matchPrefix ids tic)).map Prod.snd = some (flatAnswer c.pageSize m ids) ∧
    ∀ (other : List Nat) (before : Nat),
      ((c.call (.matchPrefix other before)).bind fun r => r.1.call (.matchPrefix ids tic)).map
        Prod.snd = some (flatAnswer c.pageSize m ids) := by
  constructor
  · obtain ⟨c', -, done, -, -⟩ := matchPrefix_flat h ids tic
    rw [done]
    rfl
  · intro other before
    obtain ⟨c₁, path₁, done, pageSize, after⟩ := matchPrefix_flat h other before
    obtain ⟨c₂, -, done', -, -⟩ := matchPrefix_flat (pageSize ▸ after) ids tic
    rw [done, Option.bind_some, done', pageSize]
    rfl

/-- Any run of match, insert, lock, unlock and evict calls on a new cache is a run of the flat page
trie with the same answers. A later match then finds the longest prefix the flat trie stores and the
slots stored with it, and splits made by a match in between change no answer. -/
theorem refines_pageTrie {page : Nat} (positive : 0 < page) {list : List Call}
    {answers : List Answer} (done : (create page).calls list = some (c, answers)) :
    ∃ m, FlatRun page PageTrie.empty list answers m ∧ ∀ (ids : List Nat) (tic : Nat),
      (c.call (.matchPrefix ids tic)).map Prod.snd = some (flatAnswer page m ids) ∧
      ∀ (other : List Nat) (before : Nat),
        ((c.call (.matchPrefix other before)).bind fun r => r.1.call (.matchPrefix ids tic)).map
          Prod.snd = some (flatAnswer page m ids) := by
  have start : Represents (create page).pageSize (create page).tree (fun _ => [])
      PageTrie.empty :=
    { ok := ok_empty positive
      entry := fun p s => by simp [PageTrie.empty, pages, tree, create, SizedTree.empty,
                                   RadixTree.empty] }
  obtain ⟨path, m, run, pageSize, after⟩ := calls_flat start done
  refine ⟨m, run, fun ids tic => ?_⟩
  have answers := answers_flat (pageSize ▸ after) ids tic
  rw [pageSize] at answers
  exact answers

/-- A split by a match of another key changes nothing. -/
theorem refines_pageTrie_small : ∃ (c : RadixPrefixCache) (answers : List Answer)
    (m : PageTrie Nat Int),
    (create 1).calls [.insertPrefix [1, 2] [10, 11] 1 1, .matchPrefix [1, 3] 2] =
      some (c, answers) ∧
    FlatRun 1 PageTrie.empty [.insertPrefix [1, 2] [10, 11] 1 1, .matchPrefix [1, 3] 2] answers m ∧
    answers = [.inserted 0 2, .matched 1 (some [10])] := by
  have done : (create 1).calls [.insertPrefix [1, 2] [10, 11] 1 1, .matchPrefix [1, 3] 2] =
      some (_, [.inserted 0 2, .matched 1 (some [10])]) := rfl
  obtain ⟨m, run, -⟩ := refines_pageTrie Nat.one_pos done
  exact ⟨_, _, m, done, run, rfl⟩

end RadixPrefixCache

/-!
## What is locked

Rows of the page table are filled with the slots of a locked handle once and are read by every
forward after that.
-/

open RadixTree RadixPrefixCache

variable {page : Nat} {f f' : PageTrie Nat Int} {call : Call} {answer : Answer}

/-- A call changes no entry that is there before and after it. -/
theorem FlatStep.kept {q : List Nat} (step : FlatStep page f call answer f') (before : (f q).isSome)
    (after : (f' q).isSome) : f' q = f q := by
  obtain ⟨s, found⟩ := Option.isSome_iff_exists.mp before
  cases step with
  | matched | locked | unlocked => rfl
  | inserted => rw [PageTrie.store, found, Option.some_or]
  | evicted =>
    rw [PageTrie.drop] at after ⊢
    split at after
    · exact absurd after (by simp)
    · rename_i stays
      exact if_neg stays

namespace Session

variable {s s' : Session} {path : Nat → List Nat} {l : Lock}

theorem call_of_step (next : s.step call = some s') :
    ∃ answer, s.cache.call call = some (s'.cache, answer) := by
  cases call with
  | matchPrefix | lock =>
    cases next
    exact ⟨_, rfl⟩
  | insertPrefix | unlock | evict =>
    obtain ⟨r, done, rfl⟩ := Option.map_eq_some_iff.mp next
    simp only [RadixPrefixCache.call, done, Option.map_some]
    exact ⟨_, rfl⟩

theorem Reachable.represents (reached : Reachable page s) :
    ∃ path f, Represents page s.cache.tree path f := by
  induction reached with
  | start positive =>
    refine ⟨fun _ => [], PageTrie.empty, ok_empty positive, fun p slots => ?_⟩
    simp [PageTrie.empty, pages, Session.start, tree, create, SizedTree.empty, RadixTree.empty]
  | step call reached _ next ih =>
    obtain ⟨path, f, h⟩ := ih
    obtain ⟨_, inv⟩ := reached.inv
    obtain ⟨answer, done⟩ := call_of_step next
    obtain ⟨path', f', -, -, h'⟩ := call_flat (inv.pageSize.symm ▸ h) done
    exact ⟨path', f', inv.pageSize ▸ h'⟩

/-- A held lock has the tokens and the slots that are stored for its path. -/
theorem Reachable.slots (reached : Reachable page s) (h : Represents page s.cache.tree path f)
    (mem : l ∈ s.held) : Live s.cache.tree.nodes l.handle.node ∧ path l.handle.node = l.tokens ∧
      s.cache.getMatchedIndices l.handle =
        if l.handle.node = 0 then none else some (f.stored page l.tokens) := by
  obtain ⟨own, inv⟩ := reached.inv
  have live := inv.live mem
  have tokens : path l.handle.node = l.tokens := by
    rw [← h.ok.tokensOf_eq live, inv.accounted.ok.tokensOf_eq live, inv.tokens l mem]
  exact ⟨live, tokens, tokens ▸ h.stored_up live ▸ rfl⟩

/-- One call does not change the slots of a lock that is held before and after it. -/
theorem Reachable.slots_step (reached : Reachable page s) (mem : l ∈ s.held) (keeps : s.Keeps call)
    (next : s.step call = some s') (mem' : l ∈ s'.held) :
    s'.cache.getMatchedIndices l.handle = s.cache.getMatchedIndices l.handle := by
  obtain ⟨path, f, h⟩ := reached.represents
  obtain ⟨_, inv⟩ := reached.inv
  obtain ⟨answer, done⟩ := call_of_step next
  obtain ⟨path', f', step, -, h'⟩ := call_flat (inv.pageSize.symm ▸ h) done
  rw [inv.pageSize] at step h'
  obtain ⟨live, tokens, slots⟩ := reached.slots h mem
  obtain ⟨live', tokens', slots'⟩ := (reached.step call keeps next).slots h' mem'
  have positive := h.ok.shaped.positive
  have same : f'.stored page l.tokens = f.stored page l.tokens := by
    refine List.flatMap_congr fun k inside => ?_
    have below := (Nat.le_div_iff_mul_le positive).mp (List.mem_range.mp inside)
    have length : (l.tokens.take ((k + 1) * page)).length = (k + 1) * page := by
      rw [List.length_take, Nat.min_eq_left below]
    have ends : PageTrie.IsPath page (l.tokens.take ((k + 1) * page)) := by
      rw [PageTrie.IsPath, length, ← List.length_pos_iff, length]
      exact ⟨Nat.mul_pos (Nat.succ_pos k) positive, Nat.dvd_mul_left _ _⟩
    rw [step.kept (h.entry_of_prefix live ends (tokens ▸ List.take_prefix _ _))
      (h'.entry_of_prefix live' ends (tokens' ▸ List.take_prefix _ _))]
  rw [slots', slots, same]

/-- Calls that leave a lock held. -/
inductive Holding (l : Lock) (s : Session) : Session → Prop where
  | start : l ∈ s.held → Holding l s s
  | step {s' s'' : Session} (call : Call) : Holding l s s' → s'.Keeps call →
    s'.step call = some s'' → l ∈ s''.held → Holding l s s''

/-- While a lock is held, its handle names the same slots and a match of any continuation of its
tokens finds them all. -/
theorem locked_slots_stay (reached : Reachable page s) (holding : Holding l s s') :
    s'.cache.getMatchedIndices l.handle = s.cache.getMatchedIndices l.handle ∧
    ∀ (ids : List Nat) (tic : Nat), l.tokens <+: ids →
      l.tokens.length ≤ (s'.cache.matchPrefix ids tic).2.cachedLen := by
  have along : Reachable page s' ∧ l ∈ s'.held ∧
      s'.cache.getMatchedIndices l.handle = s.cache.getMatchedIndices l.handle := by
    induction holding with
    | start mem => exact ⟨reached, mem, rfl⟩
    | step call _ keeps next mem ih =>
      obtain ⟨reached', mem', same⟩ := ih
      exact ⟨reached'.step call keeps next, mem,
        (reached'.slots_step mem' keeps next mem).trans same⟩
  obtain ⟨reached', mem, same⟩ := along
  refine ⟨same, fun ids tic start => ?_⟩
  obtain ⟨path, inv⟩ := reached'.inv
  obtain ⟨rfl, accounted, tokens⟩ := id inv
  obtain ⟨path', -, -, arrived⟩ := matchPrefix_spec accounted ids tic
  have reaches := arrived.reaches accounted.ok (inv.live mem) (tokens l mem ▸ start)
  exact tokens l mem ▸ reaches

/-- A lock keeps the slots when its path is split and its sibling is evicted. -/
theorem locked_slots_stay_small : ∃ s : Session,
    Reachable 1 s ∧ s.cache.tree.nodes.length = 2 ∧
      s.cache.getMatchedIndices { cachedLen := 2, node := 1 } = some [10, 11] := by
  have inserted := Reachable.step (.insertPrefix [1, 2] [10, 11] 1 1) (.start Nat.one_pos) trivial rfl
  have locked := Reachable.step (.lock { cachedLen := 2, node := 1 }) inserted
    (.inr ⟨_, List.mem_singleton.mpr rfl, rfl⟩) rfl
  have split := Reachable.step (.insertPrefix [1, 3] [20, 21] 2 2) locked trivial rfl
  have evicted := Reachable.step (.evict 1 fun _ => 0) split trivial rfl
  have still := locked_slots_stay locked (.step (.evict 1 fun _ => 0)
    (.step (.insertPrefix [1, 3] [20, 21] 2 2) (.start (List.mem_singleton.mpr rfl)) trivial rfl
      (List.mem_singleton.mpr rfl)) trivial rfl (List.mem_singleton.mpr rfl))
  exact ⟨_, evicted, rfl, still.1.trans rfl⟩

end Session

end FreeSwarm.KvCache
