import FreeSwarm.Foundation.Lanes
import Mathlib.Data.Nat.Log

/-!
# The slot map of the offload cache

The weights of the experts are in host memory, and a cache on the device holds some of them in slots.
Two maps say which slot holds an expert and which expert a slot holds; `-1` is neither. An expert is
numbered over all layers. Before a layer runs, the experts that it routes to are looked up, some of
the missing ones are given slots, and the ids are rewritten to slots, or to `-1` for an expert that
the processor computes. There are two programs for this, a reference and a vector program.

A tensor is a function of the index. Counters of 64 bits are integers here; the largest of them, and
the score of a lane that does not compete, are no value. Products of 32 bits wrap around.
-/

namespace FreeSwarm.Moe

open FreeSwarm.Foundation

abbrev Tensor := Nat → Int

structure OffloadMoeCache where
  numLayers : Nat
  numExperts : Nat
  cacheSize : Nat
  slotLimit : Option Nat
  slotForId : Tensor
  idOfSlot : Tensor
  usage : Tensor
  step : Int
  activeMask : Tensor
  evictSlots : Tensor
  srcIndices : Tensor
  numIndices : Int
  numMissingFull : Int
  expertRecency : Tensor

namespace OffloadMoeCache

variable (c : OffloadMoeCache) (layerId : Nat) (expertIds : List Nat) (byRecency : Bool) (lane : Nat)

def totalIds : Nat := c.numLayers * c.numExperts

/-- The size is at least a layer and within the limit. -/
def ValidSize (cacheSize : Nat) : Prop :=
  c.numExperts ≤ cacheSize ∧ ∀ limit ∈ c.slotLimit, cacheSize ≤ limit

instance decidableValidSize (c : OffloadMoeCache) (cacheSize : Nat) :
    Decidable (c.ValidSize cacheSize) :=
  inferInstanceAs (Decidable (_ ∧ _))

def create (numLayers numExperts cacheSize : Nat) (slotLimit : Option Nat) :
    Option OffloadMoeCache :=
  let c : OffloadMoeCache := {
    numLayers, numExperts, cacheSize, slotLimit
    slotForId := fun _ => -1, idOfSlot := fun _ => -1, usage := fun _ => 0, step := 0
    activeMask := fun _ => 0, evictSlots := fun _ => 0, srcIndices := fun _ => 0
    numIndices := 0, numMissingFull := 0, expertRecency := fun _ => -1 }
  if c.ValidSize cacheSize then some c else none

/-! ## The split -/

/-- The unit of the fixed point that fractions are in. -/
def unit : Int := 65536

def fracQ16 (scaled : Int) : Int := min unit (max 0 scaled)

/-- What fetching `f` of `m` missing experts costs: the slower of the transfer and the rest that the
processor computes. -/
def fetchCost (m frac f : Int) : Int := max (f * (unit - frac)) ((m - f) * frac)

/-- How many missing experts the reference fetches at most. -/
def fetchLimit (m maxFetch frac : Int) : Int :=
  if 0 < frac then
    let lo := m * frac / unit
    if fetchCost m frac lo ≤ fetchCost m frac (lo + 1) then lo else lo + 1
  else maxFetch

/-- A number in 32 bits. -/
def wrap32 (x : Int) : Int := x.bmod 4294967296

/-- How many missing experts the vector program fetches at most. -/
def kernelFetchLimit (m maxFetch frac : Int) : Int :=
  if 0 < frac then
    let lo := wrap32 (m * frac) / unit
    let costLo := max (wrap32 (lo * (unit - frac))) (wrap32 ((m - lo) * frac))
    let costHi := max (wrap32 ((lo + 1) * (unit - frac))) (wrap32 ((m - lo - 1) * frac))
    if costLo ≤ costHi then lo else lo + 1
  else maxFetch

/-! ## The reference -/

/-- The experts that are routed to, each once, in the order of their first place. -/
def seenExperts : List Nat :=
  expertIds.foldl (fun seen expert => if expert ∈ seen then seen else seen ++ [expert]) []

def slotOf (layerId expert : Nat) : Int :=
  c.slotForId (layerId * c.numExperts + expert)

def recencyOf (layerId expert : Nat) : Int :=
  c.expertRecency (layerId * c.numExperts + expert)

/-- The slots of the experts that are there are marked as used. -/
def pinHits (seen : List Nat) (c : OffloadMoeCache) : OffloadMoeCache :=
  { c with
    usage := storeEach seen (fun expert => c.slotOf layerId expert != -1)
      (fun expert => (c.slotOf layerId expert).toNat) (fun _ => c.step) c.usage }

def fetchedBefore (c : OffloadMoeCache) (layerId : Nat) (e e' : Nat) : Bool :=
  if byRecency then
    c.recencyOf layerId e' < c.recencyOf layerId e ∨
      c.recencyOf layerId e = c.recencyOf layerId e' ∧ e ≤ e'
  else e ≤ e'

def missingExperts (c : OffloadMoeCache) (layerId : Nat) (seen : List Nat) :
    List Nat :=
  (seen.filter fun expert => c.slotOf layerId expert = -1).mergeSort
    (fetchedBefore byRecency c layerId)

/-- A slot was used before another one, or at the same time and is the first of the two. -/
def usedBefore (slot other : Nat) : Bool :=
  c.usage slot < c.usage other ∨ c.usage slot = c.usage other ∧ slot < other

def leastUsed : Nat := firstBest c.cacheSize c.usedBefore

def give (c : OffloadMoeCache) (idx expert victim : Nat) (oldId : Int) :
    OffloadMoeCache :=
  { c with
    slotForId := Function.update
      (if 0 ≤ oldId then Function.update c.slotForId oldId.toNat (-1) else c.slotForId)
      (layerId * c.numExperts + expert) victim
    idOfSlot := Function.update c.idOfSlot victim (layerId * c.numExperts + expert : Nat)
    usage := Function.update c.usage victim c.step
    evictSlots := Function.update c.evictSlots idx victim
    srcIndices := Function.update c.srcIndices idx expert }

/-- An expert is given the slot that was used longest ago. -/
def fetchExpert (c : OffloadMoeCache) (idx expert : Nat) : OffloadMoeCache :=
  c.give layerId idx expert c.leastUsed (c.idOfSlot c.leastUsed)

/-- Some experts are given slots, from a place of the list of slots on. -/
def fetchAll (layerId : Nat) : Nat → List Nat → OffloadMoeCache → OffloadMoeCache
  | _, [], c => c
  | idx, expert :: rest, c => fetchAll layerId (idx + 1) rest (c.fetchExpert layerId idx expert)

/-- The step is noted for the experts that were routed to. -/
def noteRecency (layerId : Nat) (seen : List Nat) (c : OffloadMoeCache) :
    OffloadMoeCache :=
  if byRecency then
    { c with
      expertRecency := storeEach seen (fun _ => true)
        (fun expert => layerId * c.numExperts + expert) (fun _ => c.step) c.expertRecency }
  else c

def rewrite (c : OffloadMoeCache) : List Int :=
  expertIds.map (c.slotOf layerId)

/-- A step begins: it has a number, and the experts it routes to are marked. -/
def begin (seen : List Nat) (c : OffloadMoeCache) : OffloadMoeCache :=
  { c with
    step := c.step + 1
    activeMask := storeEach seen (fun _ => true) id (fun _ => 1)
      fun expert => if expert < c.numExperts then 0 else c.activeMask expert }

/-- The reference. -/
def ensureHybridCpu (layerId : Nat) (expertIds : List Nat)
    (maxFetch frac : Int) (c : OffloadMoeCache) : OffloadMoeCache × List Int :=
  let seen := seenExperts expertIds
  let c := (c.begin seen).pinHits layerId seen
  let missing := c.missingExperts byRecency layerId seen
  let numFetch := min (missing.length : Int) (fetchLimit missing.length maxFetch frac)
  let c := { c with numMissingFull := missing.length, numIndices := numFetch }
  let c := fetchAll layerId 0 (missing.take numFetch.toNat) c
  let c := c.noteRecency byRecency layerId seen
  (c, c.rewrite layerId expertIds)

/-! ## The vector program -/

def block (entries : Nat) : Nat := 2 ^ Nat.clog 2 entries

def laneActive : Bool :=
  expertIds.foldl (fun active expert => active || lane == expert) false

def laneSlot (layerId lane : Nat) : Int :=
  if lane < c.numExperts then c.slotOf layerId lane else -1

def laneMissing : Bool :=
  laneActive expertIds lane && c.laneSlot layerId lane == -1 && decide (lane < c.numExperts)

/-- How urgent the fetch of a lane's expert is: a later use counts more than any difference of ids,
and a smaller id breaks a tie. -/
def laneScore :
    Option Int :=
  if c.laneMissing layerId expertIds lane then
    some (c.recencyOf layerId lane * c.numExperts + (c.numExperts - 1 - lane))
  else none

/-- The number of missing experts up to a lane, without its own. -/
def laneRank : Int :=
  laneCount (lane + 1) (c.laneMissing layerId expertIds) - 1

def ownerActive (slot : Nat) : Bool :=
  expertIds.foldl
    (fun active expert => active || c.idOfSlot slot == (layerId * c.numExperts + expert : Nat)) false

/-- The last use of a slot that may be given away. -/
def laneUsage (slot : Nat) :
    Option Int :=
  if c.ownerActive layerId expertIds slot ∨ ¬ slot < c.cacheSize then none else some (c.usage slot)

/-- What the loop over the fetches changes. -/
structure FetchState where
  cache : OffloadMoeCache
  uses : Nat → Option Int
  scores : Nat → Option Int

def laneOfRank (rank : Nat) : Nat :=
  ((List.range (block c.numExperts)).map fun lane =>
    if c.laneRank layerId expertIds lane = rank ∧ c.laneMissing layerId expertIds lane then lane
    else 0).sum

/-- One turn of the loop over the fetches. The owners of the slots and the ranks are those of the
cache before the loop. -/
def kernelFetch (layerId : Nat) (expertIds : List Nat) (before : OffloadMoeCache)
    (s : FetchState) (i : Nat) : FetchState :=
  let victim := firstBest (block before.cacheSize) fun a b => below (s.uses a) (s.uses b)
  let oldId := if victim < before.cacheSize then before.idOfSlot victim else -1
  let expert :=
    if byRecency then
      firstBest (block before.numExperts) fun a b => above (s.scores a) (s.scores b)
    else before.laneOfRank layerId expertIds i
  { cache := s.cache.give layerId i expert victim oldId
    uses := Function.update s.uses victim none
    scores := if byRecency then Function.update s.scores expert none else s.scores }

/-- The vector program before the loop over the fetches. -/
def kernelOpened (maxFetch frac : Int)
    (c : OffloadMoeCache) : OffloadMoeCache :=
  let lanes := block c.numExperts
  let numMissing : Int := laneCount lanes (c.laneMissing layerId expertIds)
  { c with
    step := c.step + 1
    activeMask := storeLanes lanes (fun lane => lane < c.numExperts) id
      (fun lane => if laneActive expertIds lane then 1 else 0) c.activeMask
    numMissingFull := numMissing
    numIndices := min numMissing (kernelFetchLimit numMissing maxFetch frac)
    usage := storeLanes lanes
      (fun lane => laneActive expertIds lane && decide (0 ≤ c.laneSlot layerId lane))
      (fun lane => (c.laneSlot layerId lane).toNat) (fun _ => c.step + 1) c.usage }

def kernelNoteRecency (layerId : Nat) (expertIds : List Nat)
    (c : OffloadMoeCache) : OffloadMoeCache :=
  if byRecency then
    { c with
      expertRecency := storeLanes (block c.numExperts)
        (fun lane => laneActive expertIds lane && decide (lane < c.numExperts))
        (fun lane => layerId * c.numExperts + lane) (fun _ => c.step) c.expertRecency }
  else c

def kernelFetchAll (layerId : Nat) (expertIds : List Nat)
    (before : OffloadMoeCache) : OffloadMoeCache :=
  ((List.range before.numIndices.toNat).foldl (kernelFetch byRecency layerId expertIds before)
    ⟨before, before.laneUsage layerId expertIds, before.laneScore layerId expertIds⟩).cache

/-- The vector program. -/
def ensureHybridKernel (layerId : Nat) (expertIds : List Nat)
    (maxFetch frac : Int) (c : OffloadMoeCache) : OffloadMoeCache × List Int :=
  let before := c.kernelOpened layerId expertIds maxFetch frac
  let after := before.kernelFetchAll byRecency layerId expertIds
  (after.kernelNoteRecency byRecency layerId expertIds, after.rewrite layerId expertIds)

/-! ## The other steps -/

/-- A layer is put into the first slots, the expert of each lane into the slot of the lane. -/
def materializeLayer (c : OffloadMoeCache) : OffloadMoeCache :=
  let lanes := block (max c.numExperts c.cacheSize)
  let base := layerId * c.numExperts
  let oldId := fun lane => if lane < c.cacheSize then c.idOfSlot lane else -1
  let sameLayer := fun lane => decide (lane < c.cacheSize ∧ (base : Int) ≤ oldId lane ∧
    oldId lane < base + c.numExperts)
  let isExpert := fun lane => decide (lane < c.numExperts)
  let oldValid := fun lane => isExpert lane && decide (0 ≤ oldId lane) && !sameLayer lane
  let lane := fun (lane : Nat) => (lane : Int)
  { c with
    step := c.step + 1
    idOfSlot := storeLanes lanes isExpert id (fun lane => (base + lane : Nat))
      (storeLanes lanes sameLayer id (fun _ => -1) c.idOfSlot)
    slotForId := storeLanes lanes isExpert (base + ·) lane
      (storeLanes lanes oldValid (fun lane => (oldId lane).toNat) (fun _ => -1) c.slotForId)
    usage := storeLanes lanes isExpert id (fun _ => c.step + 1)
      (storeLanes lanes sameLayer id (fun _ => 0) c.usage)
    evictSlots := storeLanes lanes isExpert id lane c.evictSlots
    srcIndices := storeLanes lanes isExpert id lane c.srcIndices
    numIndices := c.numExperts }

def InBuffer (bufferId slot : Nat) : Prop :=
  bufferId * c.numExperts ≤ slot ∧ slot < bufferId * c.numExperts + c.numExperts ∧
    slot < c.cacheSize

instance decidableInBuffer (c : OffloadMoeCache) (bufferId : Nat) :
    DecidablePred (c.InBuffer bufferId) :=
  fun _ => inferInstanceAs (Decidable (_ ∧ _ ∧ _))

/-- The slots of a buffer lose their experts, and are the first to be given away. -/
def invalidatePrefillBuffer (bufferId : Nat) (c : OffloadMoeCache) : OffloadMoeCache :=
  { c with
    slotForId := storeLanes c.cacheSize
      (fun slot => decide (c.InBuffer bufferId slot) && decide (0 ≤ c.idOfSlot slot))
      (fun slot => (c.idOfSlot slot).toNat) (fun _ => -1) c.slotForId
    idOfSlot := fun slot => if c.InBuffer bufferId slot then -1 else c.idOfSlot slot
    usage := fun slot => if c.InBuffer bufferId slot then 0 else c.usage slot }

def reset : OffloadMoeCache :=
  { c with
    slotForId := fun id => if id < c.totalIds then -1 else c.slotForId id
    idOfSlot := fun slot => if slot < c.cacheSize then -1 else c.idOfSlot slot
    usage := fun slot => if slot < c.cacheSize then 0 else c.usage slot
    activeMask := fun expert => if expert < c.numExperts then 0 else c.activeMask expert
    step := 0
    numIndices := 0
    expertRecency := fun _ => -1 }

def rebuild (cacheSize : Nat) (c : OffloadMoeCache) : Option OffloadMoeCache :=
  if c.ValidSize cacheSize then
    some { c with
      cacheSize := cacheSize
      slotForId := fun _ => -1
      idOfSlot := fun _ => -1
      usage := fun _ => 0
      step := 0
      activeMask := fun _ => 0
      numIndices := 0
      numMissingFull := 0
      expertRecency := fun _ => -1 }
  else none

/-- The program that the experts of a step are ensured with: the vector program if the ids are on the
device, else the reference. -/
def ensureExpertsHybrid (byRecency onDevice : Bool) (layerId : Nat) (expertIds : List Nat)
    (maxFetch scaled : Int) (c : OffloadMoeCache) : OffloadMoeCache × List Int :=
  if onDevice then c.ensureHybridKernel byRecency layerId expertIds maxFetch (fracQ16 scaled)
  else c.ensureHybridCpu byRecency layerId expertIds maxFetch (fracQ16 scaled)

end OffloadMoeCache

end FreeSwarm.Moe
