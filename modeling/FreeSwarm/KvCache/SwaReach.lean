import FreeSwarm.KvCache.SwaInsert

/-!
# Any sequence of calls on the cache for sliding-window attention

Callers match, insert, lock, unlock, evict from either pool and trim, in any order. An insert comes with the
place before which the request has freed its own window slots, which is a page boundary. Every call keeps the
tree, so a match in any state that is reached answers with the longest prefix that can be reused.
-/

namespace FreeSwarm.KvCache

open FreeSwarm.Foundation FreeSwarm.Foundation.PathTree

namespace SWARadixCache

variable {c c' : SWARadixCache} {path : Nat → List Nat}

/-! ## Locks -/

theorem pin_ok {s : LockWalk} (ok : s.cache.tree.Ok s.cache.pageSize path) (cur : RadixTreeNode) :
    (s.pin cur).cache.tree.Ok (s.pin cur).cache.pageSize path := by
  unfold LockWalk.pin
  dsimp only
  split
  · exact ok.modify cur.id fun _ => rfl
  · exact ok.modify cur.id fun _ => rfl

theorem incLock_ok (ok : c.tree.Ok c.pageSize path) (node : Nat) :
    (c.incLock node).1.tree.Ok (c.incLock node).1.pageSize path := by
  have general : ∀ (nodes : List RadixTreeNode) (s : LockWalk), s.cache.tree.Ok s.cache.pageSize path →
      (nodes.foldl LockWalk.pin s).cache.tree.Ok (nodes.foldl LockWalk.pin s).cache.pageSize path := by
    intro nodes
    induction nodes with
    | nil => exact fun s ok => ok
    | cons n nodes ih => exact fun s ok => ih (s.pin n) (pin_ok ok n)
  exact general (c.tree.up node) _ ok

theorem unpin_ok {name : Option Nat} {s s' : SWARadixCache × Bool} (ok : s.1.tree.Ok s.1.pageSize path)
    {cur : RadixTreeNode} (done : unpin name s cur = some s') : s'.1.tree.Ok s'.1.pageSize path := by
  unfold unpin at done
  dsimp only at done
  split at done
  case isTrue =>
    cases done
    exact ok.modify cur.id fun _ => rfl
  case isFalse => cases done

theorem decLock_ok (ok : c.tree.Ok c.pageSize path) {node : Nat} {name : Option Nat} {skipSwa : Bool}
    (done : c.decLock node name skipSwa = some c') : c'.tree.Ok c'.pageSize path := by
  have general : ∀ (nodes : List RadixTreeNode) (s s' : SWARadixCache × Bool),
      s.1.tree.Ok s.1.pageSize path → nodes.foldlM (unpin name) s = some s' →
      s'.1.tree.Ok s'.1.pageSize path := by
    intro nodes
    induction nodes with
    | nil =>
      intro s s' ok folded
      cases folded
      exact ok
    | cons n nodes ih =>
      intro s s' ok folded
      rw [List.foldlM_cons] at folded
      obtain ⟨s₁, first, rest⟩ := Option.bind_eq_some_iff.mp folded
      exact ih s₁ s' (unpin_ok ok first) rest
  obtain ⟨s, folded, rfl⟩ := Option.map_eq_some_iff.mp done
  exact general _ _ s ok folded

/-! ## Eviction -/

variable {e : Eviction} {tie : List RadixTreeNode → Nat}

theorem cascade_ok {fuel parent : Nat} (ok : e.cache.tree.Ok e.cache.pageSize path) :
    (cascade fuel e parent).1.cache.tree.Ok (cascade fuel e parent).1.cache.pageSize path := by
  induction fuel generalizing e parent with
  | zero => exact ok
  | succ fuel ih =>
    unfold cascade
    cases found : lookup e.cache.tree.nodes parent with
    | none => exact ok
    | some p =>
      dsimp only
      split
      case isTrue bare =>
        exact ih (ok.unlink (List.mem_of_find?_eq_some found) bare.2.1)
      case isFalse => exact ok

theorem dropLeaf_ok (ok : e.cache.tree.Ok e.cache.pageSize path) {n : RadixTreeNode}
    (mem : n ∈ e.cache.tree.nodes) (leaf : isLeaf e.cache.tree.nodes n.id = true) :
    (dropLeaf e n).1.cache.tree.Ok (dropLeaf e n).1.cache.pageSize path :=
  cascade_ok (ok.unlink mem leaf)

theorem evictFullLoop_ok {numTokens fuel : Nat}
    {leaves : List RadixTreeNode} (ok : e.cache.tree.Ok e.cache.pageSize path) :
    (evictFullLoop numTokens tie fuel e leaves).cache.tree.Ok
      (evictFullLoop numTokens tie fuel e leaves).cache.pageSize path := by
  induction fuel generalizing e leaves with
  | zero => exact ok
  | succ fuel ih =>
    unfold evictFullLoop
    split
    case isFalse => exact ok
    case isTrue =>
      cases heappop (fun n => n.data.timestamp) tie leaves with
      | none => exact ok
      | some taken =>
        obtain ⟨popped, leaves⟩ := taken
        dsimp only
        cases found : lookup e.cache.tree.nodes popped.id with
        | none => exact ih ok
        | some n =>
          dsimp only
          split
          case isTrue => exact ih ok
          case isFalse stays =>
            rw [not_or, Bool.not_eq_false] at stays
            exact ih (dropLeaf_ok ok (List.mem_of_find?_eq_some found) stays.2)

theorem evictFull_ok (ok : c.tree.Ok c.pageSize path) (numTokens : Nat) (tie : List RadixTreeNode → Nat) :
    (c.evictFull numTokens tie).1.tree.Ok (c.evictFull numTokens tie).1.pageSize path :=
  evictFullLoop_ok ok

theorem evictSwaLoop_ok {numTokens fuel : Nat}
    {cands : List RadixTreeNode} (ok : e.cache.tree.Ok e.cache.pageSize path) :
    (evictSwaLoop numTokens tie fuel e cands).cache.tree.Ok
      (evictSwaLoop numTokens tie fuel e cands).cache.pageSize path := by
  induction fuel generalizing e cands with
  | zero => exact ok
  | succ fuel ih =>
    unfold evictSwaLoop
    split
    case isFalse => exact ok
    case isTrue =>
      cases heappop (fun n => n.data.timestamp) tie cands with
      | none => exact ok
      | some taken =>
        obtain ⟨popped, cands⟩ := taken
        dsimp only
        cases found : lookup e.cache.tree.nodes popped.id with
        | none => exact ih ok
        | some n =>
          dsimp only
          split
          case isTrue => exact ih ok
          case isFalse =>
            split
            case isTrue leaf =>
              have dropped := dropLeaf_ok ok (List.mem_of_find?_eq_some found) leaf.1
              exact ih (dropped.modify n.id fun _ => rfl)
            case isFalse => exact ih (ok.modify n.id fun _ => rfl)

theorem evictSwa_ok (ok : c.tree.Ok c.pageSize path) (numTokens : Nat) (tie : List RadixTreeNode → Nat) :
    (c.evictSwa numTokens tie).1.tree.Ok (c.evictSwa numTokens tie).1.pageSize path :=
  evictSwaLoop_ok ok

theorem trimLoop_ok {keepFrom fuel node pos : Nat} {ids : List Nat} {freed : List Int}
    (ok : c.tree.Ok c.pageSize path) :
    (trimLoop keepFrom ids fuel c node pos freed).1.tree.Ok
      (trimLoop keepFrom ids fuel c node pos freed).1.pageSize path := by
  induction fuel generalizing c node pos freed with
  | zero => exact ok
  | succ fuel ih =>
    unfold trimLoop
    split
    case isFalse => exact ok
    case isTrue =>
      cases childAt c.pageSize c.tree.nodes node (ids.drop pos) with
      | none => exact ok
      | some child =>
        dsimp only
        split
        case isTrue => exact ok
        case isFalse =>
          split
          case isTrue => exact ih (ok.modify child.id fun _ => rfl)
          case isFalse => exact ih ok

/-! ## Any calls -/

theorem matchPrefix_ok (ok : c.tree.Ok c.pageSize path) (ids : List Nat) :
    ∃ path', (c.matchPrefix ids).1.tree.Ok (c.matchPrefix ids).1.pageSize path' := by
  obtain ⟨path', refined⟩ := matchPrefix_refined ok ids
  exact ⟨path', (refined.live ok).1⟩

inductive Reached : SWARadixCache → Prop where
  | create {pageSize slidingWindowSize : Nat} : 0 < pageSize → 0 < slidingWindowSize →
    Reached (create pageSize slidingWindowSize)
  | matchPrefix {c : SWARadixCache} (ids : List Nat) : Reached c → Reached (c.matchPrefix ids).1
  | insert {c c' : SWARadixCache} {ids : List Nat} {kv : List Int} {swaEvictedSeqlen updateKvAfterLen : Nat}
    {moveSwa : Bool} {answer : Nat × List Int × List (List Int × List Int)} :
    Reached c → c.pageSize ∣ swaEvictedSeqlen →
    c.insert ids kv swaEvictedSeqlen updateKvAfterLen moveSwa = some (c', answer) → Reached c'
  | incLock {c : SWARadixCache} (node : Nat) : Reached c → Reached (c.incLock node).1
  | decLock {c c' : SWARadixCache} {node : Nat} {name : Option Nat} {skipSwa : Bool} :
    Reached c → c.decLock node name skipSwa = some c' → Reached c'
  | evictFull {c : SWARadixCache} (numTokens : Nat) (tie : List RadixTreeNode → Nat) :
    Reached c → Reached (c.evictFull numTokens tie).1
  | evictSwa {c : SWARadixCache} (numTokens : Nat) (tie : List RadixTreeNode → Nat) :
    Reached c → Reached (c.evictSwa numTokens tie).1
  | trimHeadSwa {c : SWARadixCache} (ids : List Nat) (keepFrom : Nat) :
    Reached c → Reached (c.trimHeadSwa ids keepFrom).1

theorem Reached.ok (reached : Reached c) : ∃ path, c.tree.Ok c.pageSize path := by
  induction reached with
  | create positive _ => exact ⟨_, RadixTree.ok_empty positive⟩
  | matchPrefix ids _ ih =>
    obtain ⟨path, ok⟩ := ih
    exact matchPrefix_ok ok ids
  | insert _ whole done ih =>
    obtain ⟨path, ok⟩ := ih
    exact insert_ok ok whole done
  | incLock node _ ih =>
    obtain ⟨path, ok⟩ := ih
    exact ⟨path, incLock_ok ok node⟩
  | decLock _ done ih =>
    obtain ⟨path, ok⟩ := ih
    exact ⟨path, decLock_ok ok done⟩
  | evictFull numTokens tie _ ih =>
    obtain ⟨path, ok⟩ := ih
    exact ⟨path, evictFull_ok ok numTokens tie⟩
  | evictSwa numTokens tie _ ih =>
    obtain ⟨path, ok⟩ := ih
    exact ⟨path, evictSwa_ok ok numTokens tie⟩
  | trimHeadSwa ids keepFrom _ ih =>
    obtain ⟨path, ok⟩ := ih
    unfold SWARadixCache.trimHeadSwa
    split
    · exact ⟨path, ok⟩
    · obtain ⟨path', ok'⟩ := matchPrefix_ok ok (ids.take keepFrom)
      exact ⟨path', trimLoop_ok ok'⟩

/-- In every state a match answers with the longest prefix along the key that ends at a node and whose last
window of tokens is live, with its slots, and changes nothing that is recorded. -/
theorem matched_of_reached (reached : Reached c) (ids : List Nat) :
    Matched c ids (c.matchPrefix ids).1 (c.matchPrefix ids).2 := by
  obtain ⟨path, ok⟩ := reached.ok
  exact matchPrefix_spec ok ids

/-- A match that splits a node behind a tombstone and reuses two pages of live slots after it. -/
theorem matched_of_reached_small : ∃ c, Reached c ∧
    Matched c [1, 2, 3, 4, 5, 6, 7, 9] (c.matchPrefix [1, 2, 3, 4, 5, 6, 7, 9]).1
      (c.matchPrefix [1, 2, 3, 4, 5, 6, 7, 9]).2 ∧
    (c.matchPrefix [1, 2, 3, 4, 5, 6, 7, 9]).2.kvIndices = [10, 11, 12, 13, 14, 15] := by
  have inserted : ((create 2 2).insert [1, 2, 3, 4, 5, 6, 7, 8] [10, 11, 12, 13, 14, 15, 16, 17] 4 0
      true).isSome = true := by decide
  have reached := Reached.insert (.create (by decide) (by decide)) (by decide) (Option.some_get inserted).symm
  exact ⟨_, reached, matched_of_reached reached _, by decide⟩

end SWARadixCache

end FreeSwarm.KvCache
