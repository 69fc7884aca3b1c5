import FreeSwarm.Foundation.Pages

/-!
# Requests and the pages of their rows

A request owns a row of the page table. The pool of pages hands out free pages, writes them into the
rows of requests and takes pages back, at once or when a lazy region ends. The prefix caches of the
managers differ; rows and pages are the same for all of them.
-/

namespace FreeSwarm.Scheduler

open FreeSwarm.Foundation

/-! ## Requests -/

/-- A request that waits for admission. -/
structure PendingReq where
  uid : Nat
  inputIds : List Nat
  outputLen : Nat
  multimodal : Bool
  deriving DecidableEq, Repr

def PendingReq.inputLen (r : PendingReq) : Nat := r.inputIds.length

/-- A request that runs; the handle is that of the prefix cache. -/
structure RunningReq (H : Type) where
  uid : Nat
  inputIds : List Nat
  tableIdx : Nat
  cachedLen : Nat
  deviceLen : Nat
  maxDeviceLen : Nat
  cacheHandle : H
  multimodal : Bool
  deriving DecidableEq, Repr

namespace RunningReq

variable {H : Type}

/-- A request over a prompt of which a part is cached; there must be something to forward. -/
def create (uid : Nat) (inputIds : List Nat) (tableIdx cachedLen outputLen : Nat) (cacheHandle : H)
    (multimodal : Bool) : Option (RunningReq H) :=
  if cachedLen < inputIds.length then
    some { uid := uid, inputIds := inputIds, tableIdx := tableIdx, cachedLen := cachedLen,
           deviceLen := inputIds.length, maxDeviceLen := inputIds.length + outputLen,
           cacheHandle := cacheHandle, multimodal := multimodal }
  else none

variable (r : RunningReq H)

/-- The tokens that may still be generated. -/
def remainLen : Nat := r.maxDeviceLen - r.deviceLen

/-- The tokens of the next forward. -/
def extendLen : Nat := r.deviceLen - r.cachedLen

/-- The forward of the request is launched. -/
def completeOne : RunningReq H :=
  { r with
    cachedLen := r.deviceLen
    deviceLen := r.deviceLen + 1 }

def appendHost (nextToken : Nat) : Option (RunningReq H) :=
  if r.inputIds.length + 1 ≤ r.maxDeviceLen then
    some { r with
      inputIds := r.inputIds ++ [nextToken] }
  else none

/-- Another token may be generated. -/
def canDecode : Bool := decide (0 < r.remainLen)

end RunningReq

/-! ## The page table -/

/-- For each row the slot of each position. -/
abbrev PageTable := Nat → Nat → Int

namespace PageTable

def row (t : PageTable) (idx start stop : Nat) : List Int :=
  (List.range' start (stop - start)).map (t idx)

def write (t : PageTable) (idx start : Nat) (slots : List Int) : PageTable := fun i p =>
  if i = idx ∧ start ≤ p ∧ p < start + slots.length then slots.getD (p - start) 0 else t i p

def writePages (page : Nat) : PageTable → List Int → List (Nat × Nat × Nat) → PageTable
  | t, _, [] => t
  | t, allocated, (tableIdx, firstPage, lastPage) :: info =>
    let length := (lastPage - firstPage) * page
    writePages page (t.write tableIdx (firstPage * page) (allocated.take length))
      (allocated.drop length) info

end PageTable

/-! ## The pool of pages -/

structure PagePool where
  numPages : Nat
  pageSize : Nat
  freeSlots : List Int
  lazyFree : Option (List Int)
  pageTable : PageTable

namespace PagePool

variable {H : Type}

def create (numPages pageSize : Nat) (pageTable : PageTable) : PagePool :=
  { numPages := numPages, pageSize := pageSize, lazyFree := none, pageTable := pageTable,
    freeSlots := (List.range numPages).map fun i : Nat => (i : Int) * pageSize }

variable (p : PagePool)

/-- Give slots of whole pages back. -/
def free (indices : List Int) : PagePool :=
  match p.lazyFree with
  | none => { p with
      freeSlots := p.freeSlots ++ stride p.pageSize indices }
  | some pages => { p with
      lazyFree := some (pages ++ stride p.pageSize indices) }

def enterLazyFree : PagePool := { p with
  lazyFree := some [] }

def leaveLazyFree : PagePool :=
  { p with
    freeSlots := p.freeSlots ++ p.lazyFree.getD []
    lazyFree := none }

def refill (evicted : List Int) : PagePool := { p with
  freeSlots := p.freeSlots ++ stride p.pageSize evicted }

def take (neededPages : Nat) : Option (PagePool × List Int) :=
  if neededPages ≤ p.freeSlots.length then
    some ({ p with
      freeSlots := p.freeSlots.drop neededPages }, p.freeSlots.take neededPages)
  else none

/-- The rows that need pages for the next forward, with their first new and last page. -/
def allocationInfo (pageSize : Nat) (reqs : List (RunningReq H)) : List (Nat × Nat × Nat) :=
  reqs.filterMap fun r =>
    let firstPage := divCeil r.cachedLen pageSize
    let lastPage := divCeil r.deviceLen pageSize
    if firstPage < lastPage then some (r.tableIdx, firstPage, lastPage) else none

def neededPages (info : List (Nat × Nat × Nat)) : Nat := (info.map fun i => i.2.2 - i.2.1).sum

def writePageTable (pages : List Int) (info : List (Nat × Nat × Nat)) : PagePool :=
  { p with
    pageTable := p.pageTable.writePages p.pageSize (toTokens p.pageSize pages) info }

/-- The slots of a request from a position on, up to the end of its last page. -/
def paddedTail (r : RunningReq H) (start : Nat) : List Int :=
  p.pageTable.row r.tableIdx start (pageCeil p.pageSize r.cachedLen)

end PagePool

end FreeSwarm.Scheduler
