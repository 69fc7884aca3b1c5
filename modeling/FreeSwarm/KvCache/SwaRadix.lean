import FreeSwarm.Foundation.LiveRun
import FreeSwarm.KvCache.RadixSession

/-!
# The prefix cache for sliding-window attention

Its tree holds slots of the full pool. The slots of the window pool behind them are freed on their own when
tokens slide out of the window: the node becomes a tombstone, and its slots in the full pool stay. A prefix
can be reused as far as its last window of tokens is live. Nodes have two locks, one for each pool, and are
evicted in two ways.
-/

namespace FreeSwarm.KvCache

open FreeSwarm.Foundation FreeSwarm.Foundation.PathTree FreeSwarm.Foundation.LiveRun

/-- The room for nodes between two events of the clock, `_EVENT_STRIDE`. -/
def eventStride : Nat := 2 ^ 24

/-- The node that a split makes of the upper part of another. -/
def RadixTree.headNode (t : RadixTree) (n : RadixTreeNode) (pos : Nat) : RadixTreeNode :=
  { id := t.counter, parent := n.parent, key := n.key.take pos, data := RadixData.head pos n.data }

structure SWARadixCache where
  pageSize : Nat
  slidingWindowSize : Nat
  tree : RadixTree
  fullEvictable : Int
  fullProtected : Int
  swaEvictable : Int
  swaProtected : Int
  clk : Nat
  uuid : Nat
  revives : Nat

/-- What a match answers. -/
structure SWAMatch where
  kvIndices : List Int
  cachedLen : Nat
  node : Nat
  deriving DecidableEq, Repr

/-- What an eviction gives back. -/
structure SWAEvictResult where
  kvIndices : List Int
  swaIndices : List Int
  deriving DecidableEq, Repr

namespace SWARadixCache

def create (pageSize slidingWindowSize : Nat) : SWARadixCache :=
  { pageSize := pageSize, slidingWindowSize := slidingWindowSize, tree := RadixTree.empty, fullEvictable := 0,
    fullProtected := 0, swaEvictable := 0, swaProtected := 0, clk := 0, uuid := 0, revives := 0 }

def nextTick (c : SWARadixCache) : Nat := (c.clk + 1) * eventStride

/-- Stamp the nodes from one up to the root, each older than the one below. -/
def stampPath (c : SWARadixCache) (node : Nat) : SWARadixCache :=
  { c with
    clk := c.clk + 1
    tree := (c.tree.up node).zipIdx.foldl (fun t entry => t.touch entry.1.id (c.nextTick - entry.2)) c.tree }

/-! ## Match -/

structure MatchWalk where
  tree : RadixTree
  node : Nat
  value : List (List Int)
  matchSinceTomb : Option Nat
  bestValueLen : Nat
  bestNode : Nat
  prefixPos : Nat

namespace MatchWalk

def start (t : RadixTree) : MatchWalk :=
  { tree := t, node := 0, value := [], matchSinceTomb := none, bestValueLen := 0, bestNode := 0, prefixPos := 0 }

/-- Keep the last node if the live tokens up to it cover the window. -/
def commit (window : Nat) (w : MatchWalk) : MatchWalk :=
  if covers window w.matchSinceTomb then
    { w with
      bestValueLen := w.value.length
      bestNode := w.node }
  else w

/-- Meet a child: before a tombstone the last node may be kept, and the live tokens start anew. -/
def meet (window : Nat) (w : MatchWalk) (child : RadixTreeNode) : MatchWalk :=
  if child.data.swaTombstone then
    { w.commit window with
      matchSinceTomb := some 0 }
  else w

def enter (w : MatchWalk) (child : RadixTreeNode) : MatchWalk :=
  { w with
    value := w.value ++ [child.data.value]
    matchSinceTomb :=
      if child.data.swaTombstone then w.matchSinceTomb else w.matchSinceTomb.map (· + child.key.length)
    node := child.id
    prefixPos := w.prefixPos + child.key.length }

/-- Walk down a key as far as it is cached, splitting the last node when the key leaves its edge. -/
def walk (page window : Nat) (ids : List Nat) : Nat → MatchWalk → MatchWalk
  | 0, w => w
  | fuel + 1, w =>
    if w.prefixPos < ids.length then
      match childAt page w.tree.nodes w.node (ids.drop w.prefixPos) with
      | none => w
      | some child =>
        let len := matchLen page child.key (ids.drop w.prefixPos)
        if len = 0 then w.meet window child
        else if len < child.key.length then
          { w.meet window child with
            tree := (w.tree.splitAt child.id len).1 }.enter (w.tree.headNode child len)
        else walk page window ids fuel ((w.meet window child).enter child)
    else w

end MatchWalk

variable (c : SWARadixCache) (ids : List Nat)

/-- Find the longest cached prefix of a key that can be reused. -/
def matchPrefix : SWARadixCache × SWAMatch :=
  let w := (MatchWalk.walk c.pageSize c.slidingWindowSize ids ids.length (.start c.tree)).commit
    c.slidingWindowSize
  let kv := (w.value.take w.bestValueLen).flatten
  ({ c with
      tree := w.tree }.stampPath w.bestNode,
    { kvIndices := kv, cachedLen := kv.length, node := w.bestNode })

/-! ## Insert -/

/-- Hang a new node below another: the cache and the new node. Every token needs a slot. -/
def addChild (parent : Nat) (ids : List Nat) (kv : List Int) (tombstone : Bool) :
    Option (SWARadixCache × Nat) :=
  if ids.length = kv.length then
    let added := c.tree.addChild parent ids
      { RadixData.fresh kv c.nextTick with
        swaTombstone := tombstone }
    some ({ c with
      clk := c.clk + 1
      tree := added.1
      fullEvictable := c.fullEvictable + ids.length
      swaEvictable := if tombstone then c.swaEvictable else c.swaEvictable + ids.length }, added.2)
  else none

/-- Bring a tombstone back to life, with slots of its own or with new ones. -/
def revive (id length : Nat) (value : Option (List Int)) : SWARadixCache :=
  { c with
    clk := c.clk + 1
    tree := c.tree.modify id fun d =>
      { d with
        value := value.getD d.value
        swaTombstone := false
        timestamp := c.nextTick }
    swaEvictable := c.swaEvictable + length
    revives := c.revives + 1 }

structure Insertion where
  cache : SWARadixCache
  node : Nat
  total : Nat
  freed : List Int
  /-- The calls of `move_swa`: the slots that take window slots over, and those that give them up. -/
  moves : List (List Int × List Int)

/-- What happens to a matched node that may carry fresh slots of the request. Only a tombstone changes: below
`evicted` the request has freed its own window slots, and from there on they are live. -/
def reconcile (evicted : Nat) (moveSwa : Bool) (child : RadixTreeNode) (seg : List Int) (s : Insertion) :
    Option Insertion :=
  if child.data.swaTombstone then
    if child.data.swaRefCount = 0 then
      let start := evicted - s.total
      if 0 < child.data.refCount ∧ moveSwa = true ∧ start < child.key.length then
        -- A reader still names the slots of the node: it keeps them, and the window slots move under them.
        let tree := if 0 < start then (s.cache.tree.splitAt child.id start).1 else s.cache.tree
        some
          { s with
            cache := { s.cache with
              tree := tree }.revive child.id (child.key.length - start) none
            freed := s.freed ++ seg
            moves := s.moves ++ [(child.data.value.drop start, seg.drop start)] }
      else if 0 < child.data.refCount then
        some
          { s with
            freed := s.freed ++ seg }
      else if evicted ≤ s.total then
        if child.key.length = seg.length then
          some
            { s with
              cache := s.cache.revive child.id child.key.length (some seg)
              freed := s.freed ++ child.data.value }
        else none
      else if evicted < s.total + child.key.length then
        if (child.key.drop start).length = (seg.drop start).length then
          some
            { s with
              cache := { s.cache with
                tree := (s.cache.tree.splitAt child.id start).1 }.revive child.id (child.key.length - start)
                (some (seg.drop start))
              freed := s.freed ++ child.data.value.drop start ++ seg.take start }
        else none
      else
        some
          { s with
            freed := s.freed ++ seg }
    else none
  else
    some
      { s with
        freed := s.freed ++ seg }

/-- Go to a child that was matched to its end. Nodes within the prefix that the request reused are left. -/
def Insertion.enter (evicted updateKvAfterLen : Nat) (moveSwa : Bool) (kv : List Int) (child : RadixTreeNode)
    (s : Insertion) : Option Insertion :=
  (if updateKvAfterLen < s.total + child.key.length then
      reconcile evicted moveSwa child ((kv.drop s.total).take child.key.length) s
    else some s).map fun s' =>
    { s' with
      total := s.total + child.key.length
      node := child.id }

/-- Walk down a key as far as it is cached, splitting the last node when the key leaves its edge. -/
def Insertion.walk (page evicted updateKvAfterLen : Nat) (moveSwa : Bool) (ids : List Nat) (kv : List Int) :
    Nat → Insertion → Option Insertion
  | 0, s => some s
  | fuel + 1, s =>
    if s.total < ids.length then
      match childAt page s.cache.tree.nodes s.node (ids.drop s.total) with
      | none => some s
      | some child =>
        let len := matchLen page child.key (ids.drop s.total)
        if len = 0 then some s
        else if len < child.key.length then
          { s with
            cache := { s.cache with
              tree := (s.cache.tree.splitAt child.id len).1 } }.enter evicted updateKvAfterLen moveSwa kv
            (s.cache.tree.headNode child len)
        else
          (s.enter evicted updateKvAfterLen moveSwa kv child).bind
            (Insertion.walk page evicted updateKvAfterLen moveSwa ids kv fuel)
    else some s

/-- Hang what was not cached below the last node: what lies before `boundary` as a tombstone. -/
def addSuffix (node : Nat) (ids : List Nat) (kv : List Int) (boundary : Nat) :
    Option SWARadixCache :=
  if 0 < boundary then
    (c.addChild node (ids.take boundary) (kv.take boundary) true).bind fun added =>
      (added.1.addChild added.2 (ids.drop boundary) (kv.drop boundary) false).map Prod.fst
  else (c.addChild node ids kv false).map Prod.fst

/-- Insert the whole pages of a key with their slots: the cache, how much was cached before, the slots to free
and the calls of `move_swa`. -/
def insert (kv : List Int) (swaEvictedSeqlen updateKvAfterLen : Nat)
    (moveSwa : Bool) : Option (SWARadixCache × Nat × List Int × List (List Int × List Int)) :=
  let insertLen := alignDown ids.length c.pageSize
  let ids := ids.take insertLen
  let kv := kv.take insertLen
  (Insertion.walk c.pageSize swaEvictedSeqlen updateKvAfterLen moveSwa ids kv insertLen
      { cache := c, node := 0, total := 0, freed := [], moves := [] }).bind fun s =>
    if s.total < insertLen then
      (s.cache.addSuffix s.node (ids.drop s.total) (kv.drop s.total)
          (min (min swaEvictedSeqlen insertLen - s.total) ((ids.drop s.total).length - c.pageSize))).map
        fun c => (c, s.total, s.freed, s.moves)
    else some (s.cache, s.total, s.freed, s.moves)

/-! ## Locks -/

structure LockWalk where
  cache : SWARadixCache
  swaLocked : Nat
  swaUuidForLock : Option Nat

/-- Lock one node, and its window slots as long as the window is not covered. -/
def LockWalk.pin (s : LockWalk) (cur : RadixTreeNode) : LockWalk :=
  let c := s.cache
  let fresh : Int := if cur.data.refCount = 0 then cur.key.length else 0
  if s.swaLocked < c.slidingWindowSize ∧ cur.data.swaTombstone = false then
    let swaFresh : Int := if cur.data.swaRefCount = 0 then cur.key.length else 0
    let locked := s.swaLocked + cur.key.length
    let ends : Bool := decide (c.slidingWindowSize ≤ locked)
    let name := cur.data.swaUuid.getD (c.uuid + 1)
    { cache := { c with
        fullEvictable := c.fullEvictable - fresh
        fullProtected := c.fullProtected + fresh
        swaEvictable := c.swaEvictable - swaFresh
        swaProtected := c.swaProtected + swaFresh
        uuid := if ends ∧ cur.data.swaUuid = none then c.uuid + 1 else c.uuid
        tree := c.tree.modify cur.id fun d =>
          { d with
            refCount := d.refCount + 1
            swaRefCount := d.swaRefCount + 1
            swaUuid := if ends then some name else d.swaUuid } }
      swaLocked := locked
      swaUuidForLock := if ends then some name else s.swaUuidForLock }
  else
    { s with
      cache := { c with
        fullEvictable := c.fullEvictable - fresh
        fullProtected := c.fullProtected + fresh
        tree := c.tree.modify cur.id fun d =>
          { d with
            refCount := d.refCount + 1 } } }

/-- Lock the nodes from one up to the root, and the window before it: the cache and the name of the end of the
locked window. -/
def incLock (node : Nat) : SWARadixCache × Option Nat :=
  let s := (c.tree.up node).foldl LockWalk.pin { cache := c, swaLocked := 0, swaUuidForLock := none }
  (s.cache, s.swaUuidForLock)

/-- Unlock one node: the cache and whether window slots are still to be unlocked. -/
def unpin (swaUuidForLock : Option Nat) (s : SWARadixCache × Bool) (cur : RadixTreeNode) :
    Option (SWARadixCache × Bool) :=
  let c := s.1
  if 0 ≤ cur.data.refCount - 1 then
    let last : Int := if cur.data.refCount - 1 = 0 then cur.key.length else 0
    let swa : Bool := s.2 && !cur.data.swaTombstone && decide (0 < cur.data.swaRefCount)
    let swaLast : Int := if swa ∧ cur.data.swaRefCount - 1 = 0 then cur.key.length else 0
    some ({ c with
      fullEvictable := c.fullEvictable + last
      fullProtected := c.fullProtected - last
      swaEvictable := c.swaEvictable + swaLast
      swaProtected := c.swaProtected - swaLast
      tree := c.tree.modify cur.id fun d =>
        { d with
          refCount := d.refCount - 1
          swaRefCount := if swa then d.swaRefCount - 1 else d.swaRefCount } },
      if swa ∧ swaUuidForLock ≠ none ∧ cur.data.swaUuid = swaUuidForLock then false else s.2)
  else none

/-- Unlock the nodes from one up to the root, and the window that was locked with it. -/
def decLock (node : Nat) (swaUuidForLock : Option Nat) (skipSwa : Bool) :
    Option SWARadixCache :=
  ((c.tree.up node).foldlM (unpin swaUuidForLock) (c, !skipSwa)).map Prod.fst

/-! ## Eviction -/

structure Eviction where
  cache : SWARadixCache
  kv : List Int
  swa : List Int
  freed : Nat

/-- Take off the tombstones that have become leaves, from a node upwards: the eviction, and the first node that
stays. The root is never looked up. -/
def cascade : Nat → Eviction → Nat → Eviction × Nat
  | 0, e, parent => (e, parent)
  | fuel + 1, e, parent =>
    match lookup e.cache.tree.nodes parent with
    | none => (e, parent)
    | some p =>
      if p.data.swaTombstone = true ∧ isLeaf e.cache.tree.nodes p.id = true ∧ p.data.refCount = 0 then
        cascade fuel
          { e with
            cache := { e.cache with
              tree := e.cache.tree.unlink p
              fullEvictable := e.cache.fullEvictable - p.key.length }
            kv := e.kv ++ p.data.value
            freed := e.freed + p.key.length } p.parent
      else (e, parent)

/-- Take off a leaf of the full pool, and the tombstones it leaves bare. -/
def dropLeaf (e : Eviction) (n : RadixTreeNode) : Eviction × Nat :=
  cascade e.cache.tree.nodes.length
    { cache := { e.cache with
        tree := e.cache.tree.unlink n
        fullEvictable := e.cache.fullEvictable - n.key.length
        swaEvictable := if n.data.swaTombstone then e.cache.swaEvictable
          else e.cache.swaEvictable - n.key.length }
      kv := e.kv ++ n.data.value
      swa := if n.data.swaTombstone then e.swa else e.swa ++ n.data.value
      freed := e.freed + n.key.length } n.parent

/-- Evict leaves without references, the least recently used first, until enough tokens are free. -/
def evictFullLoop (numTokens : Nat) (tie : List RadixTreeNode → Nat) :
    Nat → Eviction → List RadixTreeNode → Eviction
  | 0, e, _ => e
  | fuel + 1, e, leaves =>
    if e.freed < numTokens then
      match heappop (fun n => n.data.timestamp) tie leaves with
      | none => e
      | some (popped, leaves) =>
        match lookup e.cache.tree.nodes popped.id with
        | none => evictFullLoop numTokens tie fuel e leaves
        | some n =>
          if n.data.refCount ≠ 0 ∨ isLeaf e.cache.tree.nodes n.id = false then
            evictFullLoop numTokens tie fuel e leaves
          else
            let dropped := dropLeaf e n
            let leaves := match lookup dropped.1.cache.tree.nodes dropped.2 with
              | none => leaves
              | some p =>
                if isLeaf dropped.1.cache.tree.nodes p.id = true ∧ p.data.refCount = 0 then leaves ++ [p]
                else leaves
            evictFullLoop numTokens tie fuel dropped.1 leaves
    else e

/-- Free slots of both pools, by leaves. -/
def evictFull (numTokens : Nat) (tie : List RadixTreeNode → Nat) :
    SWARadixCache × SWAEvictResult :=
  let leaves := c.tree.nodes.filter fun n => isLeaf c.tree.nodes n.id && decide (n.data.refCount = 0)
  let e := evictFullLoop numTokens tie (2 * c.tree.nodes.length) { cache := c, kv := [], swa := [], freed := 0 }
    leaves
  (e.cache, { kvIndices := e.kv, swaIndices := e.swa })

/-- Evict window slots of nodes without window references, the least recently used first, until enough tokens
are free. A leaf that nobody locks goes as a whole, and any other node becomes a tombstone. -/
def evictSwaLoop (numTokens : Nat) (tie : List RadixTreeNode → Nat) :
    Nat → Eviction → List RadixTreeNode → Eviction
  | 0, e, _ => e
  | fuel + 1, e, cands =>
    if e.freed < numTokens then
      match heappop (fun n => n.data.timestamp) tie cands with
      | none => e
      | some (popped, cands) =>
        match lookup e.cache.tree.nodes popped.id with
        | none => evictSwaLoop numTokens tie fuel e cands
        | some n =>
          if n.data.swaTombstone = true ∨ n.data.swaRefCount ≠ 0 then
            evictSwaLoop numTokens tie fuel e cands
          else if isLeaf e.cache.tree.nodes n.id = true ∧ n.data.refCount = 0 then
            -- The tombstones that go along do not count as freed window slots.
            let dropped := (dropLeaf e n).1
            evictSwaLoop numTokens tie fuel
              { dropped with
                cache := { dropped.cache with
                  tree := dropped.cache.tree.modify n.id fun d =>
                    { d with
                      swaTombstone := true } }
                freed := e.freed + n.key.length } cands
          else
            evictSwaLoop numTokens tie fuel
              { e with
                cache := { e.cache with
                  tree := e.cache.tree.modify n.id fun d =>
                    { d with
                      swaTombstone := true }
                  swaEvictable := e.cache.swaEvictable - n.key.length }
                swa := e.swa ++ n.data.value
                freed := e.freed + n.key.length } cands
    else e

/-- Free slots of the window pool, by any live nodes. -/
def evictSwa (numTokens : Nat) (tie : List RadixTreeNode → Nat) :
    SWARadixCache × SWAEvictResult :=
  let cands := c.tree.nodes.filter fun n => !n.data.swaTombstone && decide (n.data.swaRefCount = 0)
  let e := evictSwaLoop numTokens tie c.tree.nodes.length { cache := c, kv := [], swa := [], freed := 0 } cands
  (e.cache, { kvIndices := e.kv, swaIndices := e.swa })

/-- Make tombstones of the nodes on the way down a key that end before `keepFrom`. -/
def trimLoop (keepFrom : Nat) (ids : List Nat) : Nat → SWARadixCache → Nat → Nat → List Int →
    SWARadixCache × List Int
  | 0, c, _, _, freed => (c, freed)
  | fuel + 1, c, node, pos, freed =>
    if pos < keepFrom then
      match childAt c.pageSize c.tree.nodes node (ids.drop pos) with
      | none => (c, freed)
      | some child =>
        if keepFrom < pos + child.key.length then (c, freed)
        else if child.data.swaTombstone = false ∧ child.data.swaRefCount = 0 ∧
            isLeaf c.tree.nodes child.id = false then
          trimLoop keepFrom ids fuel
            { c with
              tree := c.tree.modify child.id fun d =>
                { d with
                  swaTombstone := true }
              swaEvictable := c.swaEvictable - child.key.length } child.id (pos + child.key.length)
            (freed ++ child.data.value)
        else trimLoop keepFrom ids fuel c child.id (pos + child.key.length) freed
    else (c, freed)

/-- Free the window slots of a key before a place. -/
def trimHeadSwa (keepFrom : Nat) : SWARadixCache × List Int :=
  if keepFrom = 0 then (c, [])
  else trimLoop keepFrom ids keepFrom (c.matchPrefix (ids.take keepFrom)).1 0 0 []

end SWARadixCache

end FreeSwarm.KvCache
