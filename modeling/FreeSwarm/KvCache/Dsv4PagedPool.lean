import Mathlib.Data.List.Sort
import Mathlib.Data.List.Dedup
import FreeSwarm.Foundation.Scatter

/-!
# The DSV4 paged pool

`DSV4PagedKVCache` projects the full-token index space into the physical tiers. The window tier is
the only one with an allocator: `full_to_window` sends a full slot to its window slot, `-1` where
none is bound. The compressed rows and the state-ring rows are arithmetic on the two slots.

A call that raises has changed nothing before it raises, so `step` keeps the pool on an error.
-/

namespace FreeSwarm.KvCache

open FreeSwarm.Foundation

inductive PoolError where
  /-- `alloc_swa needs whole pages`. -/
  | needsWholePages
  /-- `alloc_swa pages must be contiguous ascending`. -/
  | notContiguous
  /-- `FreeListAllocator out of slots`. -/
  | outOfSlots
  /-- `free_swa got partial pages`. -/
  | partialPages
  /-- `dst_full.numel() == src_full.numel()`. -/
  | lengthMismatch
  deriving DecidableEq, Repr

/-- `FreeListAllocator`: unit base slots, the tail of the list handed out first. -/
structure FreeListAllocator where
  capacity : Nat
  pageUnit : Nat
  free : List Int
  deriving DecidableEq, Repr

namespace FreeListAllocator

/-- `_fresh_free`: every unit base, ascending. -/
def freshFree (capacity pageUnit : Nat) : List Int :=
  (List.range (capacity / pageUnit)).map fun unit : Nat => ((unit * pageUnit : Nat) : Int)

/-- `__init__`: all units free. -/
def new (capacity pageUnit : Nat) : FreeListAllocator :=
  ⟨capacity, pageUnit, freshFree capacity pageUnit⟩

variable (a : FreeListAllocator)

/-- `alloc`: take the last units of the free list. -/
def alloc (units : Nat) :
    Except PoolError (List Int × FreeListAllocator) :=
  if a.free.length < units then .error .outOfSlots
  else .ok (a.free.drop (a.free.length - units),
    { a with free := a.free.take (a.free.length - units) })

/-- `free`: append the returned units. -/
def release (units : List Int) : FreeListAllocator :=
  { a with free := a.free ++ units }

/-- `available`: free capacity in slots. -/
def available : Nat := a.free.length * a.pageUnit

end FreeListAllocator

/-- The window tier of `DSV4PagedKVCache`. -/
structure Dsv4PagedPool where
  P : Nat
  fullToken : Nat
  nWinSlots : Nat
  /-- `full_to_window`, `-1` where no window slot is bound. -/
  fullToWindow : Int → Int
  winAlloc : FreeListAllocator

def pageSlots (P : Nat) (base : Int) : List Int := (List.range P).map fun i : Nat => base + (i : Int)

/-- `view(-1, P)` of a list of `rows * P` entries. -/
def viewRows (P : Nat) : Nat → List Int → List (List Int)
  | 0, _ => []
  | rows + 1, l => l.take P :: viewRows P rows (l.drop P)

namespace Dsv4PagedPool

variable (pool : Dsv4PagedPool)

def bindWindowPages (fullBase windowBase : Int) : Dsv4PagedPool :=
  { pool with
    fullToWindow :=
      scatter pool.fullToWindow (pageSlots pool.P fullBase) (pageSlots pool.P windowBase) }

/-- `_init_paged_state`: nothing bound but the tail dummy page, every other window page free. -/
def initPagedState (P fullToken nWinSlots : Nat) : Dsv4PagedPool :=
  bindWindowPages
    { P := P, fullToken := fullToken, nWinSlots := nWinSlots, fullToWindow := fun _ => -1,
      winAlloc := FreeListAllocator.new (nWinSlots - P) P }
    ((fullToken - P : Nat) : Int) ((nWinSlots - P : Nat) : Int)

def swaAvailableSize : Nat := pool.winAlloc.available

/-- `alloc_swa`: bind one window page to each incoming page of full slots. -/
def allocSwa (fullIndices : List Int) : Except PoolError Dsv4PagedPool :=
  if fullIndices.length = 0 then .ok pool
  else if fullIndices.length % pool.P ≠ 0 then .error .needsWholePages
  else
    let fi := viewRows pool.P (fullIndices.length / pool.P) fullIndices
    let fbases := fi.map fun row => row.headD 0
    if fi ≠ fbases.map (pageSlots pool.P) then .error .notContiguous
    else do
      let (wbases, winAlloc) ← pool.winAlloc.alloc fbases.length
      .ok { pool with
        winAlloc := winAlloc
        fullToWindow := scatter pool.fullToWindow (fbases.flatMap (pageSlots pool.P))
          (wbases.flatMap (pageSlots pool.P)) }

/-- The page base under a slot, `torch.div(slot, P, rounding_mode="floor") * P`. -/
def floorPage (P : Nat) (slot : Int) : Int := slot / (P : Int) * (P : Int)

/-- `torch.unique` of the page bases under some slots: ascending, each once. -/
def uniqueBases (P : Nat) (slots : List Int) : List Int :=
  (slots.map (floorPage P)).dedup.insertionSort (· ≤ ·)

/-- `free_swa`: return the window pages behind these full slots and unbind the slots. -/
def freeSwa (fullIndices : List Int) : Except PoolError Dsv4PagedPool :=
  let fi := fullIndices.filter fun slot => 0 ≤ slot
  if fi.length = 0 then .ok pool
  else
    let fbases := uniqueBases pool.P fi
    if ¬ ∀ base ∈ fbases, (fi.map (floorPage pool.P)).count base = pool.P then
      .error .partialPages
    else
      let live := (fbases.map pool.fullToWindow).filter fun w => 0 ≤ w
      .ok { pool with
        fullToWindow := fill pool.fullToWindow (fbases.flatMap (pageSlots pool.P)) (-1)
        winAlloc := pool.winAlloc.release (live.map (floorPage pool.P)) }

/-- `move_swa`: re-home the window pages behind `srcFull` under `dstFull`. -/
def moveSwa (dstFull srcFull : List Int) :
    Except PoolError Dsv4PagedPool :=
  if srcFull.length = 0 then .ok pool
  else if dstFull.length ≠ srcFull.length then .error .lengthMismatch
  else do
    let freed ← pool.freeSwa dstFull
    let moved := scatter freed.fullToWindow dstFull (srcFull.map freed.fullToWindow)
    .ok { freed with fullToWindow := fill moved srcFull (-1) }

/-- `state_loc`: the state-ring row of a window slot, `-1` for an unbound one. -/
def stateLoc (windowSlot : Int) (ringSize P : Nat) : Int :=
  if windowSlot < 0 then -1
  else windowSlot / (P : Int) * (ringSize : Int) + windowSlot % (ringSize : Int)

/-- `cmp_rows`: the compressed row of a full slot. -/
def cmpRow (fullLoc : Int) (ratio : Nat) : Int := fullLoc / (ratio : Int)

end Dsv4PagedPool

end FreeSwarm.KvCache
