import Mathlib.Algebra.BigOperators.Group.List.Basic
import Mathlib.Data.List.Basic

/-!
# The weight checkpoint

A checkpoint is one region of bytes, cut into shard files of a limited size, and an index of the
tensors and the shards. Every tensor starts at an aligned offset of the region and is padded, so that
any part of it can be read past the page cache, block by block. A file is the list of its bytes; a
buffer that a tensor is read into is a function of the offset.

What the machine decides is a parameter: whether files can be read directly, how many bytes a direct
read returns, and in which order the parts of a tensor are read.
-/

namespace FreeSwarm.Checkpoint

/-- The block of a direct read. -/
def align : Nat := 4096

/-- A number of bytes, rounded up to blocks. -/
def alignUp (n : Nat) : Nat := (n + align - 1) / align * align

structure Tensor where
  name : String
  kind : String
  dtype : String
  shape : List Nat
  bytes : List UInt8

/-- A tensor in the index. -/
structure Entry where
  name : String
  kind : String
  dtype : String
  shape : List Nat
  globalOff : Nat
  nbytes : Nat

structure Shard where
  file : Nat
  globalOff : Nat
  nbytes : Nat

/-- The index and the shard files. -/
structure FTW where
  shardLimit : Nat
  totalBytes : Nat
  tensors : List Entry
  shards : List Shard
  files : List (List UInt8)

/-! ## The writer -/

/-- The writer. -/
structure FTWWriter where
  shardLimit : Nat
  tensors : List Entry
  shards : List Shard
  global : Nat
  closed : List (List UInt8)
  file : Option (List UInt8)
  shardStart : Nat
  cur : Nat

namespace FTWWriter

/-- A new writer, if the limit is aligned. -/
def create (shardLimit : Nat) : Option FTWWriter :=
  if shardLimit % align = 0 then
    some { shardLimit, tensors := [], shards := [], global := 0, closed := [], file := none,
           shardStart := 0, cur := 0 }
  else none

variable (w : FTWWriter)

def withOpen : List Shard :=
  match w.file with
  | none => w.shards
  | some _ => w.shards ++ [⟨w.closed.length, w.shardStart, w.cur⟩]

/-- The open file is closed, and the next one is opened. -/
def roll : FTWWriter :=
  { w with
    shards := w.withOpen
    closed := w.closed ++ w.file.toList
    file := some []
    shardStart := w.global
    cur := 0 }

/-- Bytes are written to the open file. -/
def put (data : List UInt8) (w : FTWWriter) : FTWWriter :=
  { w with
    file := w.file.map (· ++ data)
    cur := w.cur + data.length
    global := w.global + data.length }

/-- The loop that cuts bytes at the limit of a shard, with a bound on the number of its turns. -/
def writeLoop : Nat → List UInt8 → FTWWriter → Option FTWWriter
  | _, [], w => some w
  | 0, _ :: _, _ => none
  | turns + 1, byte :: rest, w =>
    let data := byte :: rest
    let w := if w.cur = w.shardLimit then w.roll else w
    let take := min data.length (w.shardLimit - w.cur)
    writeLoop turns (data.drop take) (w.put (data.take take))

/-- Bytes are written into the region. -/
def writeRaw (data : List UInt8) (w : FTWWriter) : Option FTWWriter :=
  writeLoop data.length data (if w.file.isNone then w.roll else w)

/-- A tensor is written, and its end is padded. -/
def addTensor (t : Tensor) (w : FTWWriter) : Option FTWWriter :=
  let nbytes := t.bytes.length
  let w := if w.file.isNone ∨ (nbytes ≤ w.shardLimit ∧ w.shardLimit < w.cur + nbytes)
    then w.roll else w
  let globalOff := w.global
  if globalOff % align = 0 then
    (w.writeRaw t.bytes).bind fun w =>
      let w := { w with
        tensors := w.tensors ++ [⟨t.name, t.kind, t.dtype, t.shape, globalOff, nbytes⟩] }
      let pad := alignUp w.global - w.global
      if pad ≠ 0 then w.writeRaw (List.replicate pad 0) else some w
  else none

/-- The checkpoint. -/
def finalize : FTW where
  shardLimit := w.shardLimit
  totalBytes := w.global
  tensors := w.tensors
  shards := w.withOpen
  files := w.closed ++ w.file.toList

end FTWWriter

def writeTensors (shardLimit : Nat) (tensors : List Tensor) : Option FTW :=
  (FTWWriter.create shardLimit).bind fun w =>
    (tensors.foldlM (fun w t => FTWWriter.addTensor t w) w).map FTWWriter.finalize

/-! ## The reader -/

/-- A part of a file that is copied to an offset of a buffer. -/
structure Piece where
  file : Nat
  fileOff : Nat
  destOff : Nat
  length : Nat

structure Buffer where
  size : Nat
  at_ : Nat → UInt8

namespace Buffer

def copy (file : List UInt8) (fileOff destOff length : Nat) (dest : Buffer) : Buffer where
  size := dest.size
  at_ x := if destOff ≤ x ∧ x < destOff + length then file.getD (fileOff + (x - destOff)) 0
    else dest.at_ x

def slice (b : Buffer) (start stop : Nat) : List UInt8 :=
  (List.range (stop - start)).map fun i => b.at_ (start + i)

/-- A mapping of a number of bytes, rounded up to blocks, which cannot be none. -/
def transient (nbytes : Nat) : Option Buffer :=
  if alignUp nbytes = 0 then none else some ⟨alignUp nbytes, fun _ => 0⟩

end Buffer

/-- What the machine decides. -/
structure Host where
  /-- The number of bytes that a direct read of a file returns, given the offset and the number of
  bytes that are left, if there are direct reads. -/
  direct : Option (Nat → Nat → Nat → Nat)
  schedule : List Piece → List Piece

namespace FTW

def sortedShards (ck : FTW) : List Shard :=
  ck.shards.mergeSort fun s s' => s.globalOff ≤ s'.globalOff

def entries (ck : FTW) (kinds : List String) : List Entry :=
  ck.tensors.filter fun e => kinds.isEmpty || kinds.contains e.kind

end FTW

/-- The parts of the shard files that hold a part of the region. -/
def pieces : List Shard → Nat → Nat → Nat → Option (List Piece)
  | [], _, _, remaining => if remaining ≠ 0 then none else some []
  | shard :: rest, pos, destOff, remaining =>
    if shard.globalOff + shard.nbytes ≤ pos ∨ remaining = 0 then pieces rest pos destOff remaining
    else if pos < shard.globalOff then none
    else
      let take := min remaining (shard.globalOff + shard.nbytes - pos)
      (pieces rest (pos + take) (destOff + take) (remaining - take)).map
        (⟨shard.file, pos - shard.globalOff, destOff, take⟩ :: ·)

def chunkStarts (length chunk : Nat) : List Nat :=
  (List.range ((length + chunk - 1) / chunk)).map (· * chunk)

/-- The chunks of a part, rounded up to blocks. -/
def Piece.chunks (chunk : Nat) (p : Piece) : List Piece :=
  (chunkStarts (alignUp p.length) chunk).map fun c =>
    ⟨p.file, p.fileOff + c, p.destOff + c, min chunk (alignUp p.length - c)⟩

/-- The loop of direct reads, which starts again where a read stopped short, with a bound on the
number of its turns. Each read is noted. -/
def preadInto (read : Nat → Nat → Nat) (file : List UInt8) (job : Piece) :
    Nat → Nat → Buffer → Option (Buffer × List Piece)
  | 0, done, dest => if done < job.length then none else some (dest, [])
  | turns + 1, done, dest =>
    if done < job.length then
      let call : Piece := ⟨job.file, job.fileOff + done, job.destOff + done, job.length - done⟩
      let n := read call.fileOff call.length
      if n = 0 then some (dest, [call])
      else (preadInto read file job turns (done + n)
        (dest.copy file call.fileOff call.destOff n)).map fun rest => (rest.1, call :: rest.2)
    else some (dest, [])

/-- A chunk is read, past the page cache or from a mapping of the file. The direct reads are noted. -/
def readJob (host : Host) (files : List (List UInt8)) (job : Piece) (dest : Buffer) :
    Option (Buffer × List Piece) :=
  files[job.file]?.bind fun file =>
    match host.direct with
    | some read =>
      if job.destOff + job.length ≤ dest.size then
        preadInto (read job.file) file job job.length 0 dest
      else none
    | none =>
      if job.fileOff + job.length ≤ file.length ∧ job.destOff + job.length ≤ dest.size then
        some (dest.copy file job.fileOff job.destOff job.length, [])
      else none

/-- Some chunks are read one after the other. -/
def readJobs (host : Host) (files : List (List UInt8)) :
    List Piece → Buffer → Option (Buffer × List Piece)
  | [], dest => some (dest, [])
  | job :: jobs, dest =>
    (readJob host files job dest).bind fun first =>
      (readJobs host files jobs first.1).map fun rest => (rest.1, first.2 ++ rest.2)

def readInto (host : Host) (ck : FTW) (chunk globalOff nbytes : Nat) (dest : Buffer) :
    Option (Buffer × List Piece) :=
  (pieces ck.sortedShards globalOff 0 nbytes).bind fun parts =>
    readJobs host ck.files (host.schedule (parts.flatMap (Piece.chunks chunk))) dest

/-! ## The tensors -/

variable (elsize : String → Nat)

/-- The bytes of a tensor that is made of the front of a buffer, if its shape fits. -/
def fromBuffer (dtype : String) (shape : List Nat) (nbytes : Nat) (b : Buffer) :
    Option (List UInt8) :=
  let count := nbytes / elsize dtype
  if 0 < count ∧ (shape ≠ [] → shape.prod = count) then some (b.slice 0 (count * elsize dtype))
  else none

/-- The tensors of some entries with their names, up to the first that cannot be read, and whether all
were. -/
def iterWeights (host : Host) (ck : FTW) (chunk : Nat) :
    List Entry → List (String × List UInt8) × Bool
  | [] => ([], true)
  | e :: rest =>
    let bytes := (Buffer.transient e.nbytes).bind fun buf =>
      (readInto host ck chunk e.globalOff e.nbytes buf).bind fun read =>
        fromBuffer elsize e.dtype e.shape e.nbytes read.1
    match bytes with
    | none => ([], false)
    | some bytes =>
      let later := iterWeights host ck chunk rest
      ((e.name, bytes) :: later.1, later.2)

def iterFtwWeights (host : Host) (ck : FTW) (chunk : Nat) (kinds : List String) :
    List (String × List UInt8) × Bool :=
  iterWeights elsize host ck chunk (ck.entries kinds)

/-! ## The banks -/

/-- The window of blocks around a layer of a bank. -/
structure Window where
  winOff : Nat
  winLen : Nat
  headPad : Nat
  layerBytes : Nat

def layerBytes (numLayers : Nat) (e : Entry) : Option Nat :=
  match e.shape with
  | [] => none
  | total :: rowShape =>
    if numLayers ≠ 0 ∧ total % numLayers = 0 then
      let bytes := total / numLayers * (rowShape.prod * elsize e.dtype)
      if bytes * numLayers = e.nbytes then some bytes else none
    else none

def window (e : Entry) (bytes layerId : Nat) : Window :=
  let off := e.globalOff + layerId * bytes
  let winOff := off / align * align
  let winEnd := alignUp (off + bytes)
  ⟨winOff, winEnd - winOff, off - winOff, bytes⟩

/-- A layer of a bank is read through its window. -/
def loadRow (host : Host) (ck : FTW) (chunk : Nat) (e : Entry) (bytes layerId : Nat) :
    Option (List UInt8) :=
  let w := window e bytes layerId
  (Buffer.transient w.winLen).bind fun bank =>
    (readInto host ck chunk w.winOff w.winLen bank).bind fun read =>
      if w.headPad % elsize e.dtype = 0 then
        some (read.1.slice w.headPad (w.headPad + w.layerBytes))
      else none

end FreeSwarm.Checkpoint
