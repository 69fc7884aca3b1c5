import FreeSwarm.Checkpoint.Ftw
import Mathlib.Data.List.Forall2

/-!
# What the writer of the weight checkpoint leaves

The bytes of the files, one after the other, are the region. Writing appends to the region, so what
was stored at an offset stays there; and a file only grows, so what lies in one file stays in it.
-/

namespace FreeSwarm.Checkpoint

/-! ## Blocks -/

theorem le_alignUp (n : Nat) : n ≤ alignUp n := by
  unfold alignUp align
  omega

theorem align_dvd_alignUp (n : Nat) : align ∣ alignUp n := Nat.dvd_mul_left align _

/-- The blocks around some bytes are within any blocks that hold them. -/
theorem alignUp_le {n m : Nat} (le : n ≤ m) (aligned : align ∣ m) : alignUp n ≤ m := by
  unfold alignUp
  unfold align at *
  omega

theorem align_dvd_flatten {files : List (List UInt8)}
    (aligned : ∀ data ∈ files, align ∣ data.length) : align ∣ files.flatten.length := by
  induction files with
  | nil => exact Nat.dvd_zero align
  | cons data rest ih =>
    rw [List.flatten_cons, List.length_append]
    exact Nat.dvd_add (aligned data List.mem_cons_self)
      (ih fun data mem => aligned data (List.mem_cons_of_mem _ mem))

/-! ## Files -/

/-- The shards of files that follow one another, from a number and an offset on. -/
def records : Nat → Nat → List (List UInt8) → List Shard
  | _, _, [] => []
  | file, off, data :: rest =>
    ⟨file, off, data.length⟩ :: records (file + 1) (off + data.length) rest

theorem records_append (file off : Nat) (files more : List (List UInt8)) :
    records file off (files ++ more) = records file off files ++
      records (file + files.length) (off + files.flatten.length) more := by
  induction files generalizing file off with
  | nil => simp [records]
  | cons data rest ih =>
    simp only [List.cons_append, records, ih, List.length_cons, List.flatten_cons,
      List.length_append]
    rw [Nat.add_right_comm file, Nat.add_assoc file, Nat.add_assoc off]

/-- A part of the region lies in one file. -/
def Within (files : List (List UInt8)) (off nbytes : Nat) : Prop :=
  ∃ before data after, files = before ++ data :: after ∧ before.flatten.length ≤ off ∧
    off + nbytes ≤ before.flatten.length + data.length

def Grows (files files' : List (List UInt8)) : Prop :=
  ∀ before data after, files = before ++ data :: after →
    ∃ more after', files' = before ++ (data ++ more) :: after'

theorem Grows.refl (files : List (List UInt8)) : Grows files files := by
  intro before data after same
  exact ⟨[], after, by rw [List.append_nil, same]⟩

theorem Grows.trans {files files' files'' : List (List UInt8)} (first : Grows files files')
    (second : Grows files' files'') : Grows files files'' := by
  intro before data after same
  obtain ⟨more, after', same'⟩ := first before data after same
  obtain ⟨more', after'', same''⟩ := second before (data ++ more) after' same'
  exact ⟨more ++ more', after'', by rw [same'', List.append_assoc]⟩

theorem grows_concat (files : List (List UInt8)) (added : List UInt8) :
    Grows files (files ++ [added]) := by
  intro before data after same
  exact ⟨[], after ++ [added], by simp [same]⟩

theorem grows_last (closed : List (List UInt8)) (data more : List UInt8) :
    Grows (closed ++ [data]) (closed ++ [data ++ more]) := by
  intro before d after same
  rcases List.eq_nil_or_concat after with rfl | ⟨init, last, rfl⟩
  · obtain ⟨rfl, here⟩ := List.append_inj' same rfl
    obtain rfl := List.singleton_inj.mp here
    exact ⟨more, [], rfl⟩
  · have split : closed ++ [data] = (before ++ d :: init) ++ [last] := by simpa using same
    obtain ⟨rfl, here⟩ := List.append_inj' split rfl
    obtain rfl := List.singleton_inj.mp here
    exact ⟨[], init ++ [data ++ more], by simp⟩

theorem Within.grows {files files' : List (List UInt8)} {off nbytes : Nat}
    (within : Within files off nbytes) (grows : Grows files files') : Within files' off nbytes := by
  obtain ⟨before, data, after, same, starts, ends⟩ := within
  obtain ⟨more, after', same'⟩ := grows before data after same
  refine ⟨before, data ++ more, after', same', starts, ?_⟩
  rw [List.length_append]
  omega

/-! ## The writer -/

namespace FTWWriter

variable {w w' : FTWWriter}

def files (w : FTWWriter) : List (List UInt8) := w.closed ++ w.file.toList

def region (w : FTWWriter) : List UInt8 := w.files.flatten

/-- What holds between two writes. -/
structure Kept (w : FTWWriter) : Prop where
  index : w.shards = records 0 0 w.closed
  opened : ∀ data ∈ w.file, w.shardStart = w.closed.flatten.length ∧ w.cur = data.length
  fresh : w.file = none → w.closed = []
  counted : w.global = w.region.length
  limit : ∀ data ∈ w.files, data.length ≤ w.shardLimit
  aligned : ∀ data ∈ w.closed, align ∣ data.length

structure Appends (w w' : FTWWriter) (data : List UInt8) : Prop where
  kept : w'.Kept
  opened : w'.file.isSome
  region : w'.region = w.region ++ data
  grows : Grows w.files w'.files
  limit : w'.shardLimit = w.shardLimit

structure Writes (w w' : FTWWriter) (data : List UInt8) : Prop extends Appends w w' data where
  tensors : w'.tensors = w.tensors

theorem Appends.trans {w'' : FTWWriter} {data more : List UInt8} (first : Appends w w' data)
    (second : Appends w' w'' more) : Appends w w'' (data ++ more) where
  kept := second.kept
  opened := second.opened
  region := by rw [second.region, first.region, List.append_assoc]
  grows := first.grows.trans second.grows
  limit := second.limit.trans first.limit

theorem Writes.trans {w'' : FTWWriter} {data more : List UInt8} (first : Writes w w' data)
    (second : Writes w' w'' more) : Writes w w'' (data ++ more) :=
  ⟨first.toAppends.trans second.toAppends, second.tensors.trans first.tensors⟩

theorem Kept.withOpen_eq (kept : w.Kept) : w.withOpen = records 0 0 w.files := by
  rw [withOpen, files, records_append, Nat.zero_add, Nat.zero_add, ← kept.index]
  cases here : w.file with
  | none => simp [records]
  | some data =>
    obtain ⟨start, cur⟩ := kept.opened data here
    rw [start, cur]
    rfl

theorem Kept.roll (kept : w.Kept) (aligned : ∀ data ∈ w.file, align ∣ data.length) :
    Writes w w.roll [] := by
  have files : w.roll.files = w.files ++ [[]] := rfl
  have region : w.roll.region = w.region := by
    rw [FTWWriter.region, files, List.flatten_concat, List.append_nil]
    rfl
  refine ⟨⟨⟨kept.withOpen_eq, ?_, nofun, ?_, ?_, ?_⟩, rfl, ?_, ?_, rfl⟩, rfl⟩
  · intro data mem
    obtain rfl : [] = data := Option.some.inj mem
    exact ⟨kept.counted, rfl⟩
  · rw [region]
    exact kept.counted
  · intro data mem
    rw [files, List.mem_append, List.mem_singleton] at mem
    rcases mem with mem | rfl
    · exact kept.limit data mem
    · exact Nat.zero_le _
  · intro data mem
    rcases List.mem_append.mp mem with mem | mem
    · exact kept.aligned data mem
    · exact aligned data (Option.mem_toList.mp mem)
  · rw [region, List.append_nil]
  · rw [files]
    exact grows_concat _ _

theorem Kept.put (kept : w.Kept) {data : List UInt8} (opened : w.file.isSome)
    (fits : w.cur + data.length ≤ w.shardLimit) : Writes w (w.put data) data := by
  obtain ⟨before, here⟩ := Option.isSome_iff_exists.mp opened
  obtain ⟨start, cur⟩ := kept.opened before here
  have old : w.files = w.closed ++ [before] := by
    rw [files, here]
    rfl
  have new : (w.put data).files = w.closed ++ [before ++ data] := by
    rw [files, FTWWriter.put, here]
    rfl
  have region : (w.put data).region = w.region ++ data := by
    rw [FTWWriter.region, FTWWriter.region, new, old, List.flatten_concat, List.flatten_concat,
      List.append_assoc]
  refine ⟨⟨⟨kept.index, ?_, ?_, ?_, ?_, kept.aligned⟩, ?_, region, ?_, rfl⟩, rfl⟩
  · intro d mem
    have same : some (before ++ data) = some d := by
      rw [FTWWriter.put, here] at mem
      exact mem
    cases same
    refine ⟨start, ?_⟩
    rw [List.length_append, ← cur]
    rfl
  · intro none_
    rw [FTWWriter.put, here] at none_
    cases none_
  · rw [region, List.length_append, ← kept.counted]
    rfl
  · intro d mem
    rw [new, List.mem_append, List.mem_singleton] at mem
    rcases mem with mem | rfl
    · exact kept.limit d (List.mem_append_left _ mem)
    · show (before ++ data).length ≤ w.shardLimit
      rw [List.length_append]
      omega
  · rw [FTWWriter.put, here]
    rfl
  · rw [new, old]
    exact grows_last _ _ _

theorem Writes.refl (kept : w.Kept) (opened : w.file.isSome) : Writes w w [] :=
  ⟨⟨kept, opened, (List.append_nil _).symm, .refl _, rfl⟩, rfl⟩

theorem Kept.cur_le (kept : w.Kept) (opened : w.file.isSome) : w.cur ≤ w.shardLimit := by
  obtain ⟨data, here⟩ := Option.isSome_iff_exists.mp opened
  rw [(kept.opened data here).2]
  apply kept.limit
  rw [files, here]
  simp

theorem Kept.writeLoop (kept : w.Kept) (opened : w.file.isSome) (some_ : 0 < w.shardLimit)
    (aligned : align ∣ w.shardLimit) {turns : Nat} {data : List UInt8}
    (enough : data.length ≤ turns) :
    ∃ w', writeLoop turns data w = some w' ∧ Writes w w' data ∧
      (w.cur + data.length ≤ w.shardLimit → w'.closed = w.closed ∧ w'.file = w.file.map (· ++ data)) := by
  induction turns generalizing w data with
  | zero =>
    obtain rfl := List.eq_nil_of_length_eq_zero (Nat.le_zero.mp enough)
    refine ⟨w, rfl, .refl kept opened, fun _ => ⟨rfl, ?_⟩⟩
    simp
  | succ turns ih =>
    cases data with
    | nil =>
      refine ⟨w, rfl, .refl kept opened, fun _ => ⟨rfl, ?_⟩⟩
      simp
    | cons byte rest =>
      let first := if w.cur = w.shardLimit then w.roll else w
      let take := min (byte :: rest).length (first.shardLimit - first.cur)
      have begins : Writes w first [] ∧ first.cur < w.shardLimit ∧
          (w.cur < w.shardLimit → first = w) := by
        by_cases full : w.cur = w.shardLimit
        · have blocks : ∀ data ∈ w.file, align ∣ data.length := by
            intro data mem
            rwa [← (kept.opened data mem).2, full]
          rw [show first = w.roll from if_pos full]
          exact ⟨kept.roll blocks, some_, fun less => absurd full (Nat.ne_of_lt less)⟩
        · rw [show first = w from if_neg full]
          have le := kept.cur_le opened
          exact ⟨.refl kept opened, by omega, fun _ => rfl⟩
      obtain ⟨begun, room, stays⟩ := begins
      have same : first.shardLimit = w.shardLimit := begun.limit
      have positive : 1 ≤ take := by
        simp only [take, List.length_cons]
        omega
      have long : ((byte :: rest).take take).length = take := by
        rw [List.length_take]
        omega
      have inside : first.cur + ((byte :: rest).take take).length ≤ first.shardLimit := by
        rw [long]
        omega
      have written := begun.kept.put begun.opened inside
      have less : ((byte :: rest).drop take).length ≤ turns := by
        rw [List.length_drop]
        omega
      have limit : (first.put ((byte :: rest).take take)).shardLimit = w.shardLimit := same
      obtain ⟨w', done, writes, fits⟩ := ih written.kept written.opened (limit ▸ some_)
        (limit ▸ aligned) less
      refine ⟨w', done, ?_, ?_⟩
      · have whole := (begun.trans written).trans writes
        rwa [List.nil_append, List.take_append_drop] at whole
      · intro all
        have there : first = w := stays (by
          rw [List.length_cons] at all
          omega)
        have whole : take = (byte :: rest).length := by
          simp only [take, there]
          omega
        have rest_ : (byte :: rest).drop take = [] := by rw [whole, List.drop_length]
        obtain ⟨closed, file⟩ := fits (by
          rw [rest_, limit]
          show first.cur + ((byte :: rest).take take).length + 0 ≤ _
          rw [long, there]
          omega)
        rw [closed, file, rest_, whole, List.take_length, there]
        obtain ⟨data, here⟩ := Option.isSome_iff_exists.mp opened
        exact ⟨rfl, by simp [FTWWriter.put, here]⟩

theorem Kept.writeRaw (kept : w.Kept) (opened : w.file.isSome) (some_ : 0 < w.shardLimit)
    (aligned : align ∣ w.shardLimit) (data : List UInt8) :
    ∃ w', w.writeRaw data = some w' ∧ Writes w w' data ∧
      (w.cur + data.length ≤ w.shardLimit → w'.closed = w.closed ∧ w'.file = w.file.map (· ++ data)) := by
  obtain ⟨before, here⟩ := Option.isSome_iff_exists.mp opened
  have there : ¬ w.file.isNone := by simp [here]
  rw [FTWWriter.writeRaw, if_neg there]
  exact kept.writeLoop opened some_ aligned (Nat.le_refl _)

theorem Kept.aligned_iff (kept : w.Kept) {data : List UInt8} (here : w.file = some data) :
    align ∣ w.global ↔ align ∣ data.length := by
  have whole : w.region.length = w.closed.flatten.length + data.length := by
    rw [region, files, here, Option.toList_some, List.flatten_concat, List.length_append]
  rw [kept.counted, whole]
  exact Nat.dvd_add_iff_right (align_dvd_flatten kept.aligned) |>.symm

structure Adds (w w' : FTWWriter) (t : Tensor) : Prop where
  appends : ∃ pad, Appends w w' (t.bytes ++ pad)
  tensors : w'.tensors =
    w.tensors ++ [⟨t.name, t.kind, t.dtype, t.shape, w.region.length, t.bytes.length⟩]
  aligned : align ∣ w'.global
  within : t.bytes.length ≤ w.shardLimit → Within w'.files w.region.length t.bytes.length

theorem Kept.withTensors (kept : w.Kept) (tensors : List Entry) :
    Kept { w with tensors := tensors } :=
  ⟨kept.index, kept.opened, kept.fresh, kept.counted, kept.limit, kept.aligned⟩

theorem Kept.pad (kept : w.Kept) (opened : w.file.isSome) (some_ : 0 < w.shardLimit)
    (aligned : align ∣ w.shardLimit) :
    ∃ w' pad, (if alignUp w.global - w.global ≠ 0
        then w.writeRaw (List.replicate (alignUp w.global - w.global) 0) else some w) = some w' ∧
      Writes w w' pad ∧ align ∣ w'.global := by
  have le := le_alignUp w.global
  split
  · obtain ⟨w', done, writes, -⟩ :=
      kept.writeRaw opened some_ aligned (List.replicate (alignUp w.global - w.global) 0)
    refine ⟨w', _, done, writes, ?_⟩
    rw [writes.kept.counted, writes.region, List.length_append, List.length_replicate,
      ← kept.counted, Nat.add_sub_cancel' le]
    exact align_dvd_alignUp _
  · next whole =>
    refine ⟨w, [], rfl, .refl kept opened, ?_⟩
    have same : alignUp w.global = w.global := by omega
    rw [← same]
    exact align_dvd_alignUp _

theorem Kept.addTensor (kept : w.Kept) (blocks : align ∣ w.global) (some_ : 0 < w.shardLimit)
    (aligned : align ∣ w.shardLimit) (t : Tensor) :
    ∃ w', w.addTensor t = some w' ∧ Adds w w' t := by
  let first := if w.file.isNone ∨
    (t.bytes.length ≤ w.shardLimit ∧ w.shardLimit < w.cur + t.bytes.length) then w.roll else w
  have begins : Writes w first [] ∧
      (t.bytes.length ≤ w.shardLimit → first.cur + t.bytes.length ≤ w.shardLimit) := by
    by_cases rolls : w.file.isNone ∨
        (t.bytes.length ≤ w.shardLimit ∧ w.shardLimit < w.cur + t.bytes.length)
    · rw [show first = w.roll from if_pos rolls]
      refine ⟨kept.roll fun data here => (kept.aligned_iff here).mp blocks, fun small => ?_⟩
      show 0 + _ ≤ _
      omega
    · rw [show first = w from if_neg rolls]
      rw [not_or] at rolls
      have opened : w.file.isSome := Option.isSome_iff_ne_none.mpr (by simpa using rolls.1)
      exact ⟨.refl kept opened, fun small => by omega⟩
  obtain ⟨begun, room⟩ := begins
  have limit : first.shardLimit = w.shardLimit := begun.limit
  have start : first.region = w.region := begun.region.trans (List.append_nil _)
  have global : first.global = w.region.length := by rw [begun.kept.counted, start]
  obtain ⟨second, done, writes, fits⟩ := begun.kept.writeRaw begun.opened (limit ▸ some_)
    (limit ▸ aligned) t.bytes
  let entry : Entry := ⟨t.name, t.kind, t.dtype, t.shape, first.global, t.bytes.length⟩
  have listed := writes.kept.withTensors (second.tensors ++ [entry])
  have limit' : second.shardLimit = w.shardLimit := writes.limit.trans limit
  obtain ⟨last, pad, padded, adds, whole⟩ := listed.pad writes.opened (limit' ▸ some_)
    (limit' ▸ aligned)
  refine ⟨last, ?_, ⟨⟨pad, ?_⟩, ?_, whole, ?_⟩⟩
  · show (if first.global % align = 0 then (first.writeRaw t.bytes).bind _ else none) = _
    rw [if_pos, done]
    · exact padded
    · rw [global, ← kept.counted]
      exact Nat.mod_eq_zero_of_dvd blocks
  · have rest : Appends second last pad :=
      ⟨adds.kept, adds.opened, adds.region, adds.grows, adds.limit⟩
    exact (begun.trans writes).toAppends.trans rest
  · rw [adds.tensors, ← global]
    show second.tensors ++ [entry] = _
    rw [writes.tensors, begun.tensors]
  · intro small
    obtain ⟨data, here⟩ := Option.isSome_iff_exists.mp begun.opened
    obtain ⟨closed, file⟩ := fits (limit ▸ room small)
    obtain ⟨-, cur⟩ := begun.kept.opened data here
    have old : first.region.length = first.closed.flatten.length + data.length := by
      rw [FTWWriter.region, files, here, Option.toList_some, List.flatten_concat,
        List.length_append]
    have lies : Within second.files w.region.length t.bytes.length := by
      refine ⟨first.closed, data ++ t.bytes, [], ?_, ?_, ?_⟩
      · rw [files, closed, file, here]
        rfl
      · rw [← start, old]
        omega
      · rw [← start, old, List.length_append]
        omega
    exact lies.grows adds.grows

/-! ## All tensors -/

structure Stored (region : List UInt8) (files : List (List UInt8)) (shardLimit : Nat) (t : Tensor)
    (e : Entry) : Prop where
  entry : e = ⟨t.name, t.kind, t.dtype, t.shape, e.globalOff, t.bytes.length⟩
  aligned : align ∣ e.globalOff
  bytes : ∃ before after, region = before ++ t.bytes ++ after ∧ before.length = e.globalOff
  padded : e.globalOff + alignUp t.bytes.length ≤ region.length
  within : t.bytes.length ≤ shardLimit → Within files e.globalOff t.bytes.length

structure Holds (w : FTWWriter) (tensors : List Tensor) : Prop where
  kept : w.Kept
  blocks : align ∣ w.global
  stored : List.Forall₂ (Stored w.region w.files w.shardLimit) tensors w.tensors
  apart : w.tensors.Pairwise fun e e' => e.globalOff + e.nbytes ≤ e'.globalOff

theorem Stored.grows {region more : List UInt8} {files files' : List (List UInt8)}
    {shardLimit : Nat} {t : Tensor} {e : Entry} (stored : Stored region files shardLimit t e)
    (grown : Grows files files') : Stored (region ++ more) files' shardLimit t e := by
  obtain ⟨before, after, same, start⟩ := stored.bytes
  refine ⟨stored.entry, stored.aligned, ⟨before, after ++ more, ?_, start⟩, ?_,
    fun small => (stored.within small).grows grown⟩
  · rw [same, List.append_assoc]
  · have inside := stored.padded
    rw [List.length_append]
    omega

theorem exists_stored {α β : Type} {relates : α → β → Prop} {l : List α} {l' : List β}
    (all : List.Forall₂ relates l l') {e : β} (mem : e ∈ l') : ∃ t ∈ l, relates t e := by
  induction all with
  | nil => exact absurd mem List.not_mem_nil
  | @cons t e' l l' here rest ih =>
    rcases List.mem_cons.mp mem with rfl | later
    · exact ⟨t, List.mem_cons_self, here⟩
    · obtain ⟨t', there, related⟩ := ih later
      exact ⟨t', List.mem_cons_of_mem _ there, related⟩

theorem Holds.addTensor {tensors : List Tensor} (holds : w.Holds tensors) (some_ : 0 < w.shardLimit)
    (aligned : align ∣ w.shardLimit) (t : Tensor) :
    ∃ w', w.addTensor t = some w' ∧ w'.Holds (tensors ++ [t]) ∧ w'.shardLimit = w.shardLimit := by
  obtain ⟨w', done, adds⟩ := holds.kept.addTensor holds.blocks some_ aligned t
  obtain ⟨pad, appends⟩ := adds.appends
  have start : align ∣ w.region.length := holds.kept.counted ▸ holds.blocks
  have stop : align ∣ w'.region.length := appends.kept.counted ▸ adds.aligned
  have length : w'.region.length = w.region.length + (t.bytes.length + pad.length) := by
    rw [appends.region, List.length_append, List.length_append]
  refine ⟨w', done, ⟨appends.kept, adds.aligned, ?_, ?_⟩, appends.limit⟩
  · rw [adds.tensors, appends.limit]
    refine List.rel_append (holds.stored.imp fun t e stored => ?_) (.cons ?_ .nil)
    · rw [appends.region]
      exact stored.grows appends.grows
    · refine ⟨rfl, start, ⟨w.region, pad, ?_, rfl⟩, ?_, adds.within⟩
      · rw [appends.region, List.append_assoc]
      · have blocks : alignUp t.bytes.length ≤ w'.region.length - w.region.length :=
          alignUp_le (by omega) (Nat.dvd_sub stop start)
        show w.region.length + _ ≤ _
        omega
  · rw [adds.tensors, List.pairwise_append]
    refine ⟨holds.apart, List.pairwise_singleton _ _, ?_⟩
    intro e mem e' mem'
    obtain rfl := List.mem_singleton.mp mem'
    obtain ⟨t', -, stored⟩ := exists_stored holds.stored mem
    have padded := stored.padded
    have le := le_alignUp t'.bytes.length
    rw [stored.entry]
    show e.globalOff + t'.bytes.length ≤ w.region.length
    omega

theorem Holds.addTensors {tensors : List Tensor} (holds : w.Holds tensors) (some_ : 0 < w.shardLimit)
    (aligned : align ∣ w.shardLimit) (more : List Tensor) :
    ∃ w', more.foldlM (fun w t => w.addTensor t) w = some w' ∧ w'.Holds (tensors ++ more) ∧
      w'.shardLimit = w.shardLimit := by
  induction more generalizing w tensors with
  | nil => exact ⟨w, rfl, by rwa [List.append_nil], rfl⟩
  | cons t more ih =>
    obtain ⟨w', done, holds', limit⟩ := holds.addTensor some_ aligned t
    obtain ⟨last, done', holds'', limit'⟩ := ih holds' (limit ▸ some_) (limit ▸ aligned)
    refine ⟨last, ?_, ?_, limit'.trans limit⟩
    · rw [List.foldlM_cons, done]
      exact done'
    · rwa [List.append_assoc] at holds''

end FTWWriter

/-! ## The checkpoint -/

structure FTW.Sound (ck : FTW) (shardLimit : Nat) (tensors : List Tensor) : Prop where
  index : ck.shards = records 0 0 ck.files
  limit : ∀ data ∈ ck.files, data.length ≤ shardLimit
  blocks : ∀ data ∈ ck.files, align ∣ data.length
  counted : ck.totalBytes = ck.files.flatten.length
  stored : List.Forall₂ (FTWWriter.Stored ck.files.flatten ck.files shardLimit) tensors ck.tensors
  apart : ck.tensors.Pairwise fun e e' => e.globalOff + e.nbytes ≤ e'.globalOff

theorem writeTensors_sound {shardLimit : Nat} (some_ : 0 < shardLimit)
    (aligned : align ∣ shardLimit) (tensors : List Tensor) :
    ∃ ck, writeTensors shardLimit tensors = some ck ∧ ck.Sound shardLimit tensors := by
  let w : FTWWriter := ⟨shardLimit, [], [], 0, [], none, 0, 0⟩
  have begins : w.Holds [] := by
    refine ⟨⟨rfl, nofun, fun _ => rfl, rfl, nofun, nofun⟩, Nat.dvd_zero _, .nil, .nil⟩
  obtain ⟨last, done, holds, limit⟩ := begins.addTensors some_ aligned tensors
  refine ⟨last.finalize, ?_, ?_⟩
  · rw [writeTensors, FTWWriter.create, if_pos (Nat.mod_eq_zero_of_dvd aligned)]
    show Option.map FTWWriter.finalize (tensors.foldlM (fun w t => w.addTensor t) w) = _
    rw [done]
    rfl
  · have limit : last.shardLimit = shardLimit := limit
    refine ⟨holds.kept.withOpen_eq, fun data mem => limit ▸ holds.kept.limit data mem, ?_,
      holds.kept.counted, limit ▸ holds.stored, holds.apart⟩
    intro data mem
    rcases List.mem_append.mp mem with closed | opened
    · exact holds.kept.aligned data closed
    · exact (holds.kept.aligned_iff (Option.mem_toList.mp opened)).mp holds.blocks

end FreeSwarm.Checkpoint
