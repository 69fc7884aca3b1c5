import FreeSwarm.Checkpoint.FtwReader

/-!
# What is written to the weight checkpoint is read back

Every tensor is read back from the index, on any machine, past the page cache or from a mapping. The
tensors of an iteration and the layers of a bank are read into buffers that are made for them, which
fails for a tensor without bytes.
-/

namespace FreeSwarm.Checkpoint

variable {elsize : String → Nat} {host : Host} {ck : FTW} {shardLimit chunk : Nat}
  {tensors : List Tensor} {t : Tensor} {e : Entry}

/-! ## The bytes of a tensor -/

theorem Buffer.slice_eq {b : Buffer} {start : Nat} {l : List UInt8}
    (holds : ∀ i < l.length, b.at_ (start + i) = l.getD i 0) :
    b.slice start (start + l.length) = l := by
  apply List.ext_getElem
  · simp [slice]
  · intro i _ inside
    simp only [slice, List.getElem_map, List.getElem_range, holds i inside]
    simp [inside]

theorem FTWWriter.Stored.getD {region : List UInt8} {files : List (List UInt8)}
    (stored : Stored region files shardLimit t e) {x : Nat} (inside : x < t.bytes.length) :
    region.getD (e.globalOff + x) 0 = t.bytes.getD x 0 := by
  obtain ⟨before, after, same, start⟩ := stored.bytes
  rw [same, ← start, List.append_assoc, List.getD_eq_getElem?_getD, List.getD_eq_getElem?_getD,
    List.getElem?_append_right (Nat.le_add_right _ _), Nat.add_sub_cancel_left,
    List.getElem?_append_left inside]

theorem FTWWriter.Stored.nbytes {region : List UInt8} {files : List (List UInt8)}
    (stored : Stored region files shardLimit t e) : e.nbytes = t.bytes.length := by
  rw [stored.entry]

theorem FTW.Sound.readInto (sound : ck.Sound shardLimit tensors) (machine : host.Sound ck.files)
    (some_ : 0 < chunk) (aligned : align ∣ chunk)
    (stored : FTWWriter.Stored ck.files.flatten ck.files shardLimit t e) {dest : Buffer}
    (room : alignUp e.nbytes ≤ dest.size) :
    ∃ result, readInto host ck chunk e.globalOff e.nbytes dest = some result ∧
      result.1.slice 0 e.nbytes = t.bytes ∧ ∀ call ∈ result.2, Direct dest.size call := by
  have size := stored.nbytes
  have padded := stored.padded
  have up := le_alignUp t.bytes.length
  obtain ⟨result, done, bytes, direct⟩ := readInto_fills sound machine some_ aligned stored.aligned
    (show e.globalOff + e.nbytes ≤ ck.files.flatten.length by omega) room
  refine ⟨result, done, ?_, direct⟩
  have holds : ∀ i < t.bytes.length, result.1.at_ (0 + i) = t.bytes.getD i 0 := by
    intro i inside
    rw [Nat.zero_add, bytes i (size ▸ inside), stored.getD inside]
  rw [size, ← Nat.zero_add t.bytes.length]
  exact Buffer.slice_eq holds

/-! ## The iteration -/

theorem Buffer.transient_of_pos {nbytes : Nat} (some_ : 0 < nbytes) :
    transient nbytes = some ⟨alignUp nbytes, fun _ => 0⟩ := by
  have up := le_alignUp nbytes
  rw [transient, if_neg (by omega)]

theorem Buffer.transient_zero : transient 0 = none := rfl

theorem elsize_pos (sizes : ∀ dtype, elsize dtype ∣ align) (dtype : String) : 0 < elsize dtype :=
  Nat.pos_of_dvd_of_pos (sizes dtype) (by decide)

variable {es : List Entry}

theorem iterWeights_eq (sizes : ∀ dtype, elsize dtype ∣ align) (sound : ck.Sound shardLimit tensors)
    (machine : host.Sound ck.files) (some_ : 0 < chunk) (aligned : align ∣ chunk)
    {some_ts : List Tensor}
    (stored : List.Forall₂ (FTWWriter.Stored ck.files.flatten ck.files shardLimit) some_ts es)
    (sized : ∀ t ∈ some_ts, t.bytes.length = t.shape.prod * elsize t.dtype)
    (full : ∀ t ∈ some_ts, t.bytes ≠ []) :
    iterWeights elsize host ck chunk es = (some_ts.map fun t => (t.name, t.bytes), true) := by
  induction stored with
  | nil => rfl
  | @cons t e ts es here rest ih =>
    have pos : 0 < t.bytes.length := List.length_pos_of_ne_nil (full t List.mem_cons_self)
    have size := here.nbytes
    have width := elsize_pos sizes t.dtype
    have up := le_alignUp e.nbytes
    obtain ⟨result, read, bytes, -⟩ := sound.readInto machine some_ aligned here
      (show alignUp e.nbytes ≤ (⟨alignUp e.nbytes, fun _ => 0⟩ : Buffer).size from Nat.le_refl _)
    have count : t.bytes.length / elsize t.dtype = t.shape.prod := by
      rw [sized t List.mem_cons_self, Nat.mul_div_cancel _ width]
    have whole : t.bytes.length / elsize t.dtype * elsize t.dtype = t.bytes.length := by
      rw [count, ← sized t List.mem_cons_self]
    have made : fromBuffer elsize e.dtype e.shape e.nbytes result.1 = some t.bytes := by
      have dtype : e.dtype = t.dtype := by rw [here.entry]
      have shape : e.shape = t.shape := by rw [here.entry]
      rw [fromBuffer, dtype, shape, size, whole, if_pos, ← size, bytes]
      refine ⟨?_, fun _ => count.symm⟩
      by_contra none_
      rw [Nat.eq_zero_of_not_pos none_, Nat.zero_mul] at whole
      omega
    have name : e.name = t.name := by rw [here.entry]
    rw [iterWeights, Buffer.transient_of_pos (size ▸ pos), Option.bind_some, read, Option.bind_some,
      made]
    simp only [List.map_cons, name]
    rw [ih (fun t mem => sized t (List.mem_cons_of_mem _ mem))
      fun t mem => full t (List.mem_cons_of_mem _ mem)]

theorem nbytes_ne_of_iterWeights {read : List (String × List UInt8)}
    (all : iterWeights elsize host ck chunk es = (read, true)) : ∀ e ∈ es, e.nbytes ≠ 0 := by
  induction es generalizing read with
  | nil => exact fun e mem => absurd mem List.not_mem_nil
  | cons first rest ih =>
    rw [iterWeights] at all
    intro e mem
    rcases List.mem_cons.mp mem with rfl | later
    · intro zero
      rw [zero, Buffer.transient_zero] at all
      cases all
    · split at all
      · cases all
      · obtain ⟨-, flag⟩ := Prod.mk.injEq .. ▸ all
        exact ih (Prod.ext rfl flag) e later

/-! ## The banks -/

/-- A layer of a bank that is stored is read back. -/
structure RowReads (elsize : String → Nat) (host : Host) (ck : FTW) (chunk : Nat) (t : Tensor)
    (e : Entry) (bytes layerId : Nat) : Prop where
  start : align ∣ (window e bytes layerId).winOff
  length : align ∣ (window e bytes layerId).winLen
  inside : (window e bytes layerId).winOff + (window e bytes layerId).winLen ≤ ck.totalBytes
  direct : ∀ dest : Buffer, alignUp (window e bytes layerId).winLen ≤ dest.size →
    ∃ result, readInto host ck chunk (window e bytes layerId).winOff
      (window e bytes layerId).winLen dest = some result ∧
        ∀ call ∈ result.2, Direct dest.size call
  row : loadRow elsize host ck chunk e bytes layerId =
    some ((t.bytes.drop (layerId * bytes)).take bytes)

theorem layerBytes_spec {numLayers bytes : Nat} (made : layerBytes elsize numLayers e = some bytes) :
    bytes * numLayers = e.nbytes ∧ elsize e.dtype ∣ bytes := by
  rw [layerBytes] at made
  split at made
  · cases made
  · next total rowShape shape =>
    obtain ⟨-, made⟩ := Option.ite_none_right_eq_some.mp made
    obtain ⟨whole, same⟩ := Option.ite_none_right_eq_some.mp made
    cases same
    exact ⟨whole, (Nat.dvd_mul_left _ _).mul_left _⟩

theorem FTW.Sound.rowReads (sizes : ∀ dtype, elsize dtype ∣ align)
    (sound : ck.Sound shardLimit tensors) (machine : host.Sound ck.files) (some_ : 0 < chunk)
    (aligned : align ∣ chunk)
    (stored : FTWWriter.Stored ck.files.flatten ck.files shardLimit t e) (full : t.bytes ≠ [])
    {numLayers bytes layerId : Nat} (made : layerBytes elsize numLayers e = some bytes)
    (layer : layerId < numLayers) : RowReads elsize host ck chunk t e bytes layerId := by
  obtain ⟨whole, multiple⟩ := layerBytes_spec made
  have size := stored.nbytes
  have pos : 0 < t.bytes.length := List.length_pos_of_ne_nil full
  have layerPos : bytes ≠ 0 := by
    rintro rfl
    omega
  have rows : layerId * bytes + bytes ≤ t.bytes.length := by
    rw [← size, ← whole, ← Nat.succ_mul, Nat.mul_comm bytes]
    exact Nat.mul_le_mul_right bytes layer
  let off := e.globalOff + layerId * bytes
  have region : align ∣ ck.files.flatten.length := align_dvd_flatten sound.blocks
  have padded := stored.padded
  have up := le_alignUp t.bytes.length
  have ends : alignUp (off + bytes) ≤ ck.files.flatten.length := alignUp_le (by omega) region
  have low : off / align * align ≤ off := Nat.div_mul_le_self _ _
  have high := le_alignUp (off + bytes)
  have start : align ∣ (window e bytes layerId).winOff := Nat.dvd_mul_left align _
  have length : align ∣ (window e bytes layerId).winLen := Nat.dvd_sub (align_dvd_alignUp _) start
  have inside : (window e bytes layerId).winOff + (window e bytes layerId).winLen ≤
      ck.files.flatten.length := by
    show off / align * align + (alignUp (off + bytes) - off / align * align) ≤ _
    omega
  have some_' : 0 < (window e bytes layerId).winLen := by
    show 0 < alignUp (off + bytes) - off / align * align
    omega
  refine ⟨start, length, sound.counted ▸ inside, fun dest room => ?_, ?_⟩
  · obtain ⟨result, read, -, direct⟩ :=
      readInto_fills sound machine some_ aligned start inside room
    exact ⟨result, read, direct⟩
  obtain ⟨result, read, at_, -⟩ := readInto_fills sound machine some_ aligned start inside
    (show alignUp (window e bytes layerId).winLen ≤
      (⟨alignUp (window e bytes layerId).winLen, fun _ => 0⟩ : Buffer).size from Nat.le_refl _)
  have head : (window e bytes layerId).headPad % elsize e.dtype = 0 := by
    apply Nat.mod_eq_zero_of_dvd
    apply Nat.dvd_sub _ ((sizes e.dtype).trans start)
    exact Nat.dvd_add ((sizes e.dtype).trans stored.aligned) (multiple.mul_left layerId)
  have row : ((t.bytes.drop (layerId * bytes)).take bytes).length = bytes := by
    rw [List.length_take, List.length_drop]
    omega
  have carved : ∀ i < ((t.bytes.drop (layerId * bytes)).take bytes).length,
      result.1.at_ ((window e bytes layerId).headPad + i) =
        ((t.bytes.drop (layerId * bytes)).take bytes).getD i 0 := by
    intro i lt
    rw [row] at lt
    have within : (window e bytes layerId).headPad + i < (window e bytes layerId).winLen := by
      show off - off / align * align + i < alignUp (off + bytes) - off / align * align
      omega
    have place : (window e bytes layerId).winOff + ((window e bytes layerId).headPad + i) =
        e.globalOff + (layerId * bytes + i) := by
      show off / align * align + (off - off / align * align + i) = _
      omega
    rw [at_ _ within, place, stored.getD (by omega), List.getD_eq_getElem?_getD,
      List.getD_eq_getElem?_getD, List.getElem?_take_of_lt lt, List.getElem?_drop]
  have slice := Buffer.slice_eq carved
  rw [row] at slice
  rw [loadRow]
  simp only [Buffer.transient_of_pos some_', Option.bind_some, read, if_pos head]
  exact congrArg some slice

/-! ## The round trip -/

structure RoundTrips (elsize : String → Nat) (shardLimit chunk : Nat) (tensors : List Tensor)
    (ck : FTW) : Prop where
  starts : ∀ e ∈ ck.tensors, align ∣ e.globalOff
  apart : ck.tensors.Pairwise fun e e' => e.globalOff + e.nbytes ≤ e'.globalOff
  limit : ∀ data ∈ ck.files, data.length ≤ shardLimit
  whole : ∀ e ∈ ck.tensors, e.nbytes ≤ shardLimit → ∃ shard ∈ ck.shards,
    shard.globalOff ≤ e.globalOff ∧ e.globalOff + e.nbytes ≤ shard.globalOff + shard.nbytes
  /-- On every machine a tensor is read into any buffer that holds its blocks, and the direct reads
  are of whole blocks and within the buffer. -/
  read : ∀ host : Host, host.Sound ck.files → List.Forall₂ (fun (t : Tensor) (e : Entry) =>
    e = ⟨t.name, t.kind, t.dtype, t.shape, e.globalOff, t.bytes.length⟩ ∧
    ∀ dest : Buffer, alignUp e.nbytes ≤ dest.size →
      ∃ result, readInto host ck chunk e.globalOff e.nbytes dest = some result ∧
        result.1.slice 0 e.nbytes = t.bytes ∧ ∀ call ∈ result.2, Direct dest.size call)
    tensors ck.tensors
  iter : ∀ host : Host, host.Sound ck.files → ∀ kinds : List String,
    iterFtwWeights elsize host ck chunk kinds =
      ((tensors.filter fun t => kinds.isEmpty || kinds.contains t.kind).map
        fun t => (t.name, t.bytes), true)
  rows : ∀ host : Host, host.Sound ck.files → List.Forall₂ (fun (t : Tensor) (e : Entry) =>
    ∀ numLayers bytes, layerBytes elsize numLayers e = some bytes → ∀ layerId < numLayers,
      RowReads elsize host ck chunk t e bytes layerId) tensors ck.tensors

theorem mem_records {before after : List (List UInt8)} {data : List UInt8} :
    (⟨before.length, before.flatten.length, data.length⟩ : Shard) ∈
      records 0 0 (before ++ data :: after) := by
  rw [records_append, Nat.zero_add, Nat.zero_add]
  exact List.mem_append_right _ List.mem_cons_self

theorem forall₂_filter_kinds {relates : Tensor → Entry → Prop} {kinds : List String}
    (same : ∀ t e, relates t e → e.kind = t.kind) {ts : List Tensor}
    (all : List.Forall₂ relates ts es) :
    List.Forall₂ relates (ts.filter fun t => kinds.isEmpty || kinds.contains t.kind)
      (es.filter fun e => kinds.isEmpty || kinds.contains e.kind) := by
  induction all with
  | nil => exact .nil
  | @cons t e ts es here rest ih =>
    rw [List.filter_cons, List.filter_cons, same t e here]
    split
    · exact .cons here ih
    · exact ih

theorem FTW.Sound.roundTrips (sizes : ∀ dtype, elsize dtype ∣ align)
    (sound : ck.Sound shardLimit tensors) (some_ : 0 < chunk) (aligned : align ∣ chunk)
    (sized : ∀ t ∈ tensors, t.bytes.length = t.shape.prod * elsize t.dtype)
    (full : ∀ t ∈ tensors, t.bytes ≠ []) : RoundTrips elsize shardLimit chunk tensors ck := by
  constructor
  · intro e mem
    obtain ⟨t, -, stored⟩ := FTWWriter.exists_stored sound.stored mem
    exact stored.aligned
  · exact sound.apart
  · exact sound.limit
  · intro e mem small
    obtain ⟨t, -, stored⟩ := FTWWriter.exists_stored sound.stored mem
    obtain ⟨before, data, after, same, starts, ends⟩ := stored.within (stored.nbytes ▸ small)
    refine ⟨⟨before.length, before.flatten.length, data.length⟩, ?_, starts, ?_⟩
    · rw [sound.index, same]
      exact mem_records
    · rw [stored.nbytes]
      exact ends
  · intro host machine
    refine sound.stored.imp fun t e stored => ⟨stored.entry, fun dest room => ?_⟩
    exact sound.readInto machine some_ aligned stored room
  · intro host machine kinds
    have same : ∀ t e, FTWWriter.Stored ck.files.flatten ck.files shardLimit t e →
        e.kind = t.kind := by
      intro t e stored
      rw [stored.entry]
    exact iterWeights_eq sizes sound machine some_ aligned (forall₂_filter_kinds same sound.stored)
      (fun t mem => sized t (List.mem_of_mem_filter mem))
      fun t mem => full t (List.mem_of_mem_filter mem)
  · intro host machine
    have all : List.Forall₂ (fun t e => t.bytes ≠ [] ∧
        FTWWriter.Stored ck.files.flatten ck.files shardLimit t e) tensors ck.tensors :=
      (List.forall₂_and_left _ _).mpr ⟨full, sound.stored⟩
    refine all.imp fun t e held => ?_
    intro numLayers bytes made layerId layer
    exact sound.rowReads sizes machine some_ aligned held.2 held.1 made layer

/-- A machine without direct reads that reads in order. -/
def mapped : Host := ⟨none, id⟩

theorem mapped_sound (files : List (List UInt8)) : mapped.Sound files := ⟨nofun, .refl⟩

theorem RoundTrips.full (trips : RoundTrips elsize shardLimit chunk tensors ck) :
    ∀ t ∈ tensors, t.bytes ≠ [] := by
  intro t mem empty
  have stored := trips.read mapped (mapped_sound _)
  obtain ⟨e, there, entry, -⟩ := FTWWriter.exists_stored stored.flip mem
  have every : ck.entries [] = ck.tensors := by simp [FTW.entries]
  have all := trips.iter mapped (mapped_sound _) []
  rw [iterFtwWeights, every] at all
  apply nbytes_ne_of_iterWeights all e there
  rw [entry, empty]
  rfl

/-- For every list of tensors, every limit of whole blocks and every chunk of whole blocks, the
checkpoint is read back iff no tensor is without bytes. -/
theorem roundTrips_iff (sizes : ∀ dtype, elsize dtype ∣ align) (limited : 0 < shardLimit)
    (cut : align ∣ shardLimit) (some_ : 0 < chunk) (aligned : align ∣ chunk)
    (sized : ∀ t ∈ tensors, t.bytes.length = t.shape.prod * elsize t.dtype) :
    (∃ ck, writeTensors shardLimit tensors = some ck ∧
      RoundTrips elsize shardLimit chunk tensors ck) ↔ ∀ t ∈ tensors, t.bytes ≠ [] := by
  constructor
  · rintro ⟨ck, -, trips⟩
    exact trips.full
  · intro full
    obtain ⟨ck, written, sound⟩ := writeTensors_sound limited cut tensors
    exact ⟨ck, written, sound.roundTrips sizes some_ aligned sized full⟩

def emptyTensor : Tensor := ⟨"bias", "weight", "float32", [0], []⟩

/-- A tensor of no elements is written, but an iteration fails at it. -/
theorem emptyTensor_unread : (writeTensors 4096 [emptyTensor]).isSome ∧
    ∀ ck, writeTensors 4096 [emptyTensor] = some ck →
      ¬ RoundTrips (fun _ => 4) 4096 8388608 [emptyTensor] ck := by
  refine ⟨by decide, fun ck _ trips => ?_⟩
  exact trips.full emptyTensor List.mem_cons_self rfl

def smallTensor : Tensor := ⟨"norm", "weight", "float32", [2], [0, 0, 128, 63, 0, 0, 0, 64]⟩

/-- Two elements are read back. -/
theorem smallTensor_roundTrips : ∃ ck, writeTensors 4096 [smallTensor] = some ck ∧
    RoundTrips (fun _ => 4) 4096 8388608 [smallTensor] ck := by
  have sized : ∀ t ∈ [smallTensor], t.bytes.length = t.shape.prod * 4 := by
    intro t mem
    obtain rfl := List.mem_singleton.mp mem
    rfl
  apply (roundTrips_iff (fun _ => by decide) (by decide) (by decide) (by decide) (by decide)
    sized).mpr
  intro t mem
  obtain rfl := List.mem_singleton.mp mem
  exact List.cons_ne_nil _ _

end FreeSwarm.Checkpoint
