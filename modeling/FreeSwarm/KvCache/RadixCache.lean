import FreeSwarm.Foundation.Heap
import FreeSwarm.Foundation.PathTreeWalk

/-!
# The radix tree and the plain prefix cache

The nodes of all three prefix caches are of one class; `RadixData` holds what they carry besides
their place in the tree. A tree also remembers the nodes taken off it, because handles may still
name them. The plain cache counts the tokens of nodes without and with references.
-/

namespace FreeSwarm.KvCache

open FreeSwarm.Foundation FreeSwarm.Foundation.PathTree

/-- What a tree node carries. -/
structure RadixData where
  value : List Int
  refCount : Int
  timestamp : Nat
  mambaValue : Option Nat
  mambaRefCount : Int
  swaTombstone : Bool
  swaRefCount : Int
  swaUuid : Option Nat
  deriving DecidableEq, Repr

abbrev RadixTreeNode := Node Nat RadixData

def RadixData.fresh (value : List Int) (timestamp : Nat) : RadixData :=
  { value := value, refCount := 0, timestamp := timestamp, mambaValue := none, mambaRefCount := 0,
    swaTombstone := false, swaRefCount := 0, swaUuid := none }

/-- What the new upper half of a split node carries. -/
def RadixData.head (pos : Nat) (d : RadixData) : RadixData :=
  { RadixData.fresh (d.value.take pos) d.timestamp with
    refCount := d.refCount
    swaRefCount := d.swaRefCount
    swaTombstone := d.swaTombstone
    swaUuid := d.swaUuid }

/-- What the lower half of a split node carries. -/
def RadixData.tail (pos : Nat) (d : RadixData) : RadixData :=
  { d with
    value := d.value.drop pos
    swaUuid := none }

/-- A radix tree: its nodes, the nodes taken off it, and the next node id. The root has the id
`0`. -/
structure RadixTree where
  nodes : List RadixTreeNode
  dropped : List RadixTreeNode
  counter : Nat

namespace RadixTree

def empty : RadixTree := { nodes := [], dropped := [], counter := 1 }

variable (t : RadixTree)

def up (id : Nat) : List RadixTreeNode :=
  chain (lookup (t.nodes ++ t.dropped)) (t.nodes.length + t.dropped.length) id

/-- Change what a node carries. -/
def modify (id : Nat) (f : RadixData → RadixData) : RadixTree :=
  { t with
    nodes := PathTree.modify t.nodes id f
    dropped := PathTree.modify t.dropped id f }

/-- Set the time of the last use of a node. -/
def touch (id tic : Nat) : RadixTree :=
  t.modify id fun d =>
    { d with
      timestamp := tic }

/-- Split a node after some tokens: the tree and the new upper node. -/
def splitAt (id pos : Nat) : RadixTree × Nat :=
  ({ t with
      nodes := PathTree.split t.nodes id pos t.counter (RadixData.head pos) (RadixData.tail pos)
      counter := t.counter + 1 }, t.counter)

/-- Hang a new node below another: the tree and the new node. -/
def addChild (parent : Nat) (key : List Nat) (d : RadixData) : RadixTree × Nat :=
  ({ t with
      nodes := t.nodes ++ [{ id := t.counter, parent := parent, key := key, data := d }]
      counter := t.counter + 1 }, t.counter)

/-- Take a node off its parent. -/
def unlink (n : RadixTreeNode) : RadixTree :=
  { t with
    nodes := PathTree.unlink t.nodes n.id
    dropped := t.dropped ++ [n] }

/-- Walk down a key from a node at which `pos` tokens are read, splitting the last node when the key
leaves its edge: the tree, the last node and the number of tokens read. -/
def treeWalk (page tic : Nat) (ids : List Nat) : Nat → RadixTree → Nat → Nat →
    RadixTree × Nat × Nat
  | 0, t, node, pos => (t, node, pos)
  | fuel + 1, t, node, pos =>
    if pos < ids.length then
      match childAt page t.nodes node (ids.drop pos) with
      | none => (t, node, pos)
      | some child =>
        let len := matchLen page child.key (ids.drop pos)
        if len ≠ child.key.length then
          let (t, upper) := t.splitAt child.id len
          (t.touch upper tic, upper, pos + len)
        else treeWalk page tic ids fuel (t.touch child.id tic) child.id (pos + len)
    else (t, node, pos)

/-- Walk down a key from the root. -/
def walk (page tic : Nat) (ids : List Nat) : RadixTree × Nat × Nat :=
  treeWalk page tic ids ids.length t 0 0

end RadixTree

structure SizedTree where
  tree : RadixTree
  evictable : Int
  held : Int

namespace SizedTree

def empty : SizedTree := { tree := RadixTree.empty, evictable := 0, held := 0 }

def ref (s : SizedTree) (n : RadixTreeNode) : SizedTree :=
  { evictable := if n.data.refCount = 0 then s.evictable - n.key.length else s.evictable
    held := if n.data.refCount = 0 then s.held + n.key.length else s.held
    tree := s.tree.modify n.id fun d =>
      { d with
        refCount := d.refCount + 1 } }

/-- Give one reference on a node back; there must be one. -/
def unref (s : SizedTree) (n : RadixTreeNode) : Option SizedTree :=
  if 0 ≤ n.data.refCount - 1 then
    some
      { evictable := if n.data.refCount - 1 = 0 then s.evictable + n.key.length else s.evictable
        held := if n.data.refCount - 1 = 0 then s.held - n.key.length else s.held
        tree := s.tree.modify n.id fun d =>
          { d with
            refCount := d.refCount - 1 } }
  else none

end SizedTree

/-- A cached prefix: its length and the node it ends at. -/
structure RadixCacheHandle where
  cachedLen : Nat
  /-- The node the prefix ends at, `0` for the root. -/
  node : Nat
  deriving DecidableEq, Repr

structure RadixPrefixCache where
  pageSize : Nat
  sized : SizedTree

namespace RadixPrefixCache

def create (pageSize : Nat) : RadixPrefixCache := { pageSize := pageSize, sized := SizedTree.empty }

variable (c : RadixPrefixCache)

abbrev tree : RadixTree := c.sized.tree

abbrev evictableSize : Int := c.sized.evictable

/-- The tokens that are locked. -/
abbrev protectedSize : Int := c.sized.held

def setTree (t : RadixTree) : RadixPrefixCache :=
  { c with
    sized := { c.sized with
      tree := t } }

/-- The slots of a prefix; the root has none to concatenate. -/
def getMatchedIndices (h : RadixCacheHandle) : Option (List Int) :=
  if h.node = 0 then none else some ((c.tree.up h.node).reverse.flatMap fun n => n.data.value)

def lockHandle (h : RadixCacheHandle) (unlock : Bool) :
    Option RadixPrefixCache :=
  if unlock then
    ((c.tree.up h.node).foldlM SizedTree.unref c.sized).map fun s => { c with
      sized := s }
  else
    some { c with
      sized := (c.tree.up h.node).foldl SizedTree.ref c.sized }

def matchPrefix (ids : List Nat) (tic : Nat) :
    RadixPrefixCache × RadixCacheHandle :=
  let (tree, node, prefixLen) := c.tree.walk c.pageSize tic ids
  (c.setTree tree, { cachedLen := prefixLen, node := node })

/-- Insert the whole pages of a key with their slots: how much was cached before, and the handle of
the inserted prefix. -/
def insertPrefix (ids : List Nat) (indices : List Int) (tic now : Nat) :
    Option (RadixPrefixCache × Nat × RadixCacheHandle) :=
  let insertLen := alignDown ids.length c.pageSize
  let ids := ids.take insertLen
  let indices := indices.take insertLen
  let (tree, node, prefixLen) := c.tree.walk c.pageSize tic ids
  if prefixLen ≠ insertLen then
    if (ids.drop prefixLen).length = (indices.drop prefixLen).length then
      let (tree, new) := tree.addChild node (ids.drop prefixLen)
        (RadixData.fresh (indices.drop prefixLen) now)
      some ({ c with
          sized := { c.sized with
            tree := tree
            evictable := c.sized.evictable + (ids.drop prefixLen).length } },
        prefixLen, { cachedLen := insertLen, node := new })
    else none
  else some (c.setTree tree, prefixLen, { cachedLen := insertLen, node := node })

def collectLeaveNodesForEvict : List RadixTreeNode :=
  c.tree.nodes.filter fun n => isLeaf c.tree.nodes n.id && decide (n.data.refCount = 0)

/-- Evict least recently used leaves until enough tokens are free. A parent that becomes a leaf
joins the leaves; the root never does. -/
def evictLoop (size : Nat) (tie : List RadixTreeNode → Nat) : Nat → RadixPrefixCache →
    List RadixTreeNode → Nat → List Int → Option (RadixPrefixCache × List Int)
  | 0, _, _, _, _ => none
  | fuel + 1, c, leaves, evicted, indices =>
    if evicted < size then
      match heappop (fun n => n.data.timestamp) tie leaves with
      | none => none
      | some (n, leaves) =>
        if n.data.refCount = 0 ∧ isLeaf c.tree.nodes n.id = true then
          let c := { c with
            sized := { c.sized with
              tree := c.tree.unlink n
              evictable := c.sized.evictable - n.key.length } }
          let leaves := match lookup c.tree.nodes n.parent with
            | none => leaves
            | some parent =>
              if isLeaf c.tree.nodes parent.id = true ∧ parent.data.refCount = 0 then
                leaves ++ [parent]
              else leaves
          evictLoop size tie fuel c leaves (evicted + n.key.length) (indices ++ n.data.value)
        else none
    else some (c, indices)

/-- Free at least `size` tokens: the cache and the slots freed. -/
def evict (size : Nat) (tie : List RadixTreeNode → Nat) :
    Option (RadixPrefixCache × List Int) :=
  if size = 0 then some (c, [])
  else if (size : Int) ≤ c.evictableSize then
    evictLoop size tie (c.tree.nodes.length + 1) c c.collectLeaveNodesForEvict 0 []
  else none

end RadixPrefixCache

end FreeSwarm.KvCache
