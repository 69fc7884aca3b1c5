import FreeSwarm.Checkpoint.FtwWriter

/-!
# What the reader of the weight checkpoint returns

A part of the region is cut at the ends of the files and then into chunks of whole blocks. Each chunk
is read into its place of the buffer, so that the order of the reads does not matter, nor does it
matter where a direct read stops short.
-/

namespace FreeSwarm.Checkpoint

variable {files : List (List UInt8)} {base nbytes : Nat} {chunk : Nat}

theorem getD_flatten {before after : List (List UInt8)} {data : List UInt8} {i : Nat}
    (same : files = before ++ data :: after) (inside : i < data.length) :
    files.flatten.getD (before.flatten.length + i) 0 = data.getD i 0 := by
  rw [List.getD_eq_getElem?_getD, List.getD_eq_getElem?_getD, same, List.flatten_append,
    List.flatten_cons, List.getElem?_append_right (Nat.le_add_right _ _), Nat.add_sub_cancel_left,
    List.getElem?_append_left inside]

/-! ## Pieces -/

structure Part (files : List (List UInt8)) (base nbytes : Nat) (p : Piece) : Prop where
  file : ∃ before data after, files = before ++ data :: after ∧ p.file = before.length ∧
    p.fileOff + p.length ≤ data.length ∧ before.flatten.length + p.fileOff = base + p.destOff
  ends : p.destOff + p.length ≤ nbytes
  fileAligned : align ∣ p.fileOff
  destAligned : align ∣ p.destOff

def Piece.Covers (p : Piece) (x : Nat) : Prop := p.destOff ≤ x ∧ x < p.destOff + p.length

theorem pieces_parts (blocks : ∀ data ∈ files, align ∣ data.length) (aligned : align ∣ base)
    {before rest : List (List UInt8)} (same : files = before ++ rest) {pos destOff remaining : Nat}
    (here : pos = base + destOff) (all : destOff + remaining = nbytes)
    (inside : pos + remaining ≤ files.flatten.length)
    (starts : remaining ≠ 0 → before.flatten.length ≤ pos ∧ align ∣ destOff) :
    ∃ parts, pieces (records before.length before.flatten.length rest) pos destOff remaining =
        some parts ∧ (∀ p ∈ parts, Part files base nbytes p) ∧
      ∀ x, destOff ≤ x → x < nbytes → ∃ p ∈ parts, p.Covers x := by
  induction rest generalizing before pos destOff remaining with
  | nil =>
    have none_ : remaining = 0 := by
      by_contra some_
      have first := (starts some_).1
      rw [same, List.append_nil] at inside
      omega
    refine ⟨[], ?_, nofun, fun x low high => by omega⟩
    simp [records, pieces, none_]
  | cons data rest ih =>
    have next : files = (before ++ [data]) ++ rest := by rw [same, List.append_assoc]; rfl
    have length : (before ++ [data]).length = before.length + 1 := List.length_append
    have stop : (before ++ [data]).flatten.length = before.flatten.length + data.length := by
      rw [List.flatten_concat, List.length_append]
    rw [records, pieces]
    split
    · next skip =>
      rw [← length, ← stop]
      apply ih next here all inside
      intro some_
      rw [stop]
      exact ⟨skip.resolve_right some_, (starts some_).2⟩
    · next goes =>
      rw [not_or] at goes
      obtain ⟨first, blocked⟩ := starts goes.2
      have ends : pos < before.flatten.length + data.length := Nat.lt_of_not_le goes.1
      rw [if_neg (Nat.not_lt.mpr first)]
      let take := min remaining (before.flatten.length + data.length - pos)
      have block : align ∣ data.length := blocks data (by rw [same]; simp)
      have begins : align ∣ before.flatten.length := align_dvd_flatten fun d mem =>
        blocks d (by rw [same]; exact List.mem_append_left _ mem)
      have place : align ∣ pos := here ▸ Nat.dvd_add aligned blocked
      -- what is left after this file starts at the next file
      obtain ⟨parts, found, good, covers⟩ := ih next (show pos + take = base + (destOff + take) by omega)
        (show destOff + take + (remaining - take) = nbytes by omega) (by omega) (by
          intro some_
          have whole : take = before.flatten.length + data.length - pos := by omega
          rw [stop, whole]
          refine ⟨by omega, Nat.dvd_add blocked ?_⟩
          exact Nat.dvd_sub (Nat.dvd_add begins block) place)
      rw [length, stop] at found
      refine ⟨⟨before.length, pos - before.flatten.length, destOff, take⟩ :: parts, ?_, ?_, ?_⟩
      · show Option.map _ (pieces (records (before.length + 1)
          (before.flatten.length + data.length) rest) (pos + take) (destOff + take)
          (remaining - take)) = _
        rw [found]
        rfl
      · intro p mem
        rcases List.mem_cons.mp mem with rfl | later
        · refine ⟨⟨before, data, rest, same, rfl, ?_, ?_⟩, ?_, Nat.dvd_sub place begins, blocked⟩
          · show pos - before.flatten.length + take ≤ data.length
            omega
          · show before.flatten.length + (pos - before.flatten.length) = base + destOff
            omega
          · show destOff + take ≤ nbytes
            omega
        · exact good p later
      · intro x low high
        by_cases near : x < destOff + take
        · exact ⟨_, List.mem_cons_self, low, near⟩
        · obtain ⟨p, mem, within⟩ := covers x (by omega) high
          exact ⟨p, List.mem_cons_of_mem _ mem, within⟩

/-! ## Chunks -/

theorem mem_chunkStarts (some_ : 0 < chunk) {length c : Nat} :
    c ∈ chunkStarts length chunk ↔ ∃ i, c = i * chunk ∧ c < length := by
  have bound : ∀ i, i < (length + chunk - 1) / chunk ↔ i * chunk < length := by
    intro i
    rw [← Nat.succ_le_iff, Nat.le_div_iff_mul_le some_, Nat.succ_mul]
    omega
  rw [chunkStarts, List.mem_map]
  constructor
  · rintro ⟨i, mem, rfl⟩
    exact ⟨i, rfl, (bound i).mp (List.mem_range.mp mem)⟩
  · rintro ⟨i, rfl, lt⟩
    exact ⟨i, List.mem_range.mpr ((bound i).mpr lt), rfl⟩

/-- A chunk is a part of a file that belongs at its place of the buffer, in whole blocks. -/
structure Job (files : List (List UInt8)) (base nbytes : Nat) (p : Piece) : Prop where
  file : ∃ before data after, files = before ++ data :: after ∧ p.file = before.length ∧
    p.fileOff + p.length ≤ data.length ∧ before.flatten.length + p.fileOff = base + p.destOff
  inside : p.destOff + p.length ≤ alignUp nbytes
  fileAligned : align ∣ p.fileOff
  destAligned : align ∣ p.destOff
  lengthAligned : align ∣ p.length

theorem Part.job {part : Piece} (blocks : ∀ data ∈ files, align ∣ data.length) (some_ : 0 < chunk)
    (aligned : align ∣ chunk) (held : Part files base nbytes part) {p : Piece}
    (mem : p ∈ part.chunks chunk) : Job files base nbytes p := by
  obtain ⟨before, data, after, same, number, inside, place⟩ := held.file
  obtain ⟨c, starts, rfl⟩ := List.mem_map.mp mem
  obtain ⟨i, multiple, lt⟩ := (mem_chunkStarts some_).mp starts
  have start : align ∣ c := multiple ▸ Dvd.dvd.mul_left aligned i
  have whole : align ∣ data.length := blocks data (by rw [same]; simp)
  have inFile : alignUp part.length ≤ data.length - part.fileOff :=
    alignUp_le (by omega) (Nat.dvd_sub whole held.fileAligned)
  have ends := held.ends
  have up := le_alignUp nbytes
  have inBuffer : alignUp part.length ≤ alignUp nbytes - part.destOff :=
    alignUp_le (by omega) (Nat.dvd_sub (align_dvd_alignUp nbytes) held.destAligned)
  have rest : align ∣ alignUp part.length - c := Nat.dvd_sub (align_dvd_alignUp _) start
  refine ⟨⟨before, data, after, same, number, ?_, ?_⟩, ?_, Nat.dvd_add held.fileAligned start,
    Nat.dvd_add held.destAligned start, ?_⟩
  · show part.fileOff + c + min chunk (alignUp part.length - c) ≤ data.length
    omega
  · show before.flatten.length + (part.fileOff + c) = base + (part.destOff + c)
    omega
  · show part.destOff + c + min chunk (alignUp part.length - c) ≤ alignUp nbytes
    omega
  · show align ∣ min chunk (alignUp part.length - c)
    rcases Nat.le_total chunk (alignUp part.length - c) with le | le
    · rwa [Nat.min_eq_left le]
    · rwa [Nat.min_eq_right le]

theorem Piece.exists_chunk (some_ : 0 < chunk) {part : Piece} {x : Nat} (within : part.Covers x) :
    ∃ p ∈ part.chunks chunk, p.Covers x := by
  obtain ⟨low, high⟩ := within
  have up := le_alignUp part.length
  have below : (x - part.destOff) / chunk * chunk ≤ x - part.destOff := Nat.div_mul_le_self _ _
  have above : x - part.destOff < (x - part.destOff) / chunk * chunk + chunk :=
    Nat.lt_div_mul_add some_
  have starts : (x - part.destOff) / chunk * chunk ∈ chunkStarts (alignUp part.length) chunk :=
    (mem_chunkStarts some_).mpr ⟨_, rfl, by omega⟩
  refine ⟨_, List.mem_map.mpr ⟨_, starts, rfl⟩, ?_, ?_⟩
  · show part.destOff + (x - part.destOff) / chunk * chunk ≤ x
    omega
  · show x < part.destOff + (x - part.destOff) / chunk * chunk +
      min chunk (alignUp part.length - (x - part.destOff) / chunk * chunk)
    omega

/-! ## Reads -/

/-- What a direct read may return: some bytes, and whole blocks if it is asked for whole blocks. -/
structure Reads (read : Nat → Nat → Nat) (size : Nat) : Prop where
  some_ : ∀ off len, 0 < len → off + len ≤ size → 0 < read off len
  fits : ∀ off len, read off len ≤ len
  blocks : ∀ off len, align ∣ off → align ∣ len → align ∣ read off len

/-- A machine whose direct reads are those of a system, and which reads each chunk once. -/
structure Host.Sound (host : Host) (files : List (List UInt8)) : Prop where
  reads : ∀ read ∈ host.direct, ∀ file data, files[file]? = some data →
    Reads (read file) data.length
  schedule : ∀ jobs, (host.schedule jobs).Perm jobs

/-- A direct read is of whole blocks and within a buffer. -/
structure Direct (size : Nat) (call : Piece) : Prop where
  fileAligned : align ∣ call.fileOff
  destAligned : align ∣ call.destOff
  lengthAligned : align ∣ call.length
  inside : call.destOff + call.length ≤ size

/-- What reads leave: the bytes of the region where they cover the buffer, and what was there
elsewhere. -/
structure Fills (files : List (List UInt8)) (base : Nat) (covered : Nat → Prop) (dest : Buffer)
    (result : Buffer × List Piece) : Prop where
  size : result.1.size = dest.size
  filled : ∀ x, covered x → result.1.at_ x = files.flatten.getD (base + x) 0
  left : ∀ x, ¬ covered x → result.1.at_ x = dest.at_ x
  direct : ∀ call ∈ result.2, Direct dest.size call

variable {p : Piece} {data : List UInt8} {dest : Buffer}

theorem Job.exists_file (job : Job files base nbytes p) : ∃ data, files[p.file]? = some data ∧
    p.fileOff + p.length ≤ data.length ∧
      ∀ x, p.Covers x → data.getD (p.fileOff + (x - p.destOff)) 0 =
        files.flatten.getD (base + x) 0 := by
  obtain ⟨before, data, after, same, number, inside, place⟩ := job.file
  refine ⟨data, by rw [number, same]; simp, inside, ?_⟩
  rintro x ⟨low, high⟩
  rw [← getD_flatten same (show p.fileOff + (x - p.destOff) < data.length by omega)]
  congr 1
  omega

theorem preadInto_fills {read : Nat → Nat → Nat} (job : Job files base nbytes p)
    (bytes : ∀ x, p.Covers x → data.getD (p.fileOff + (x - p.destOff)) 0 =
      files.flatten.getD (base + x) 0)
    (inside : p.fileOff + p.length ≤ data.length) (reads : Reads read data.length)
    (room : p.destOff + p.length ≤ dest.size) {turns done : Nat} (blocks : align ∣ done)
    (before : done ≤ p.length) (enough : p.length - done ≤ turns) :
    ∃ result, preadInto read data p turns done dest = some result ∧
      Fills files base (fun x => p.destOff + done ≤ x ∧ x < p.destOff + p.length) dest result := by
  induction turns generalizing done dest with
  | zero =>
    have past : ¬ done < p.length := by omega
    refine ⟨(dest, []), by rw [preadInto, if_neg past], ⟨rfl, ?_, fun _ _ => rfl, nofun⟩⟩
    intro x covered
    omega
  | succ turns ih =>
    rw [preadInto]
    split
    · next less =>
      let call : Piece := ⟨p.file, p.fileOff + done, p.destOff + done, p.length - done⟩
      have rest : align ∣ p.length - done := Nat.dvd_sub job.lengthAligned blocks
      have start : align ∣ p.fileOff + done := Nat.dvd_add job.fileAligned blocks
      have direct : Direct dest.size call := by
        refine ⟨start, Nat.dvd_add job.destAligned blocks, rest, ?_⟩
        show p.destOff + done + (p.length - done) ≤ dest.size
        omega
      let n := read call.fileOff call.length
      have some_ : 0 < n := reads.some_ (p.fileOff + done) (p.length - done) (by omega) (by omega)
      have fits : n ≤ p.length - done := reads.fits _ _
      have stops : align ∣ n := reads.blocks (p.fileOff + done) (p.length - done) start rest
      let next := dest.copy data call.fileOff call.destOff n
      have room' : p.destOff + p.length ≤ next.size := room
      obtain ⟨result, later, fills⟩ := ih room' (Nat.dvd_add blocks stops)
        (show done + n ≤ p.length by omega) (show p.length - (done + n) ≤ turns by omega)
      refine ⟨(result.1, call :: result.2), ?_, ⟨fills.size, ?_, ?_, ?_⟩⟩
      · show (if n = 0 then _ else Option.map _ (preadInto read data p turns (done + n) next)) = _
        rw [if_neg (Nat.ne_of_gt some_), later]
        rfl
      · rintro x ⟨low, high⟩
        by_cases far : p.destOff + (done + n) ≤ x
        · exact fills.filled x ⟨far, high⟩
        · have index : p.fileOff + done + (x - (p.destOff + done)) =
              p.fileOff + (x - p.destOff) := by omega
          have here : call.destOff ≤ x ∧ x < call.destOff + n :=
            ⟨low, show x < p.destOff + done + n by omega⟩
          rw [fills.left x fun covered => far covered.1]
          show (if call.destOff ≤ x ∧ x < call.destOff + n then
            data.getD (p.fileOff + done + (x - (p.destOff + done))) 0 else dest.at_ x) = _
          rw [if_pos here, index, bytes x ⟨by omega, high⟩]
      · intro x outside
        have apart : ¬ (call.destOff ≤ x ∧ x < call.destOff + n) := by
          show ¬ (p.destOff + done ≤ x ∧ x < p.destOff + done + n)
          omega
        rw [fills.left x fun covered => outside ⟨by omega, covered.2⟩]
        exact if_neg apart
      · intro c mem
        rcases List.mem_cons.mp mem with rfl | later
        · exact direct
        · exact fills.direct c later
    · next past =>
      refine ⟨(dest, []), rfl, ⟨rfl, ?_, fun _ _ => rfl, nofun⟩⟩
      intro x covered
      omega

/-- A chunk is read into its place, past the page cache or from a mapping. -/
theorem readJob_fills {host : Host} (sound : host.Sound files) (job : Job files base nbytes p)
    (room : alignUp nbytes ≤ dest.size) :
    ∃ result, readJob host files p dest = some result ∧
      Fills files base p.Covers dest result := by
  obtain ⟨data, there, inside, bytes⟩ := job.exists_file
  have fits : p.destOff + p.length ≤ dest.size := Nat.le_trans job.inside room
  rw [readJob, there, Option.bind_some]
  cases mode : host.direct with
  | some read =>
    simp only [if_pos fits]
    exact preadInto_fills job bytes inside (sound.reads read mode p.file data there) fits
      (Nat.dvd_zero _) (Nat.zero_le _) (Nat.le_refl _)
  | none =>
    simp only [if_pos (And.intro inside fits)]
    refine ⟨_, rfl, ⟨rfl, ?_, ?_, nofun⟩⟩
    · intro x covered
      exact (if_pos covered).trans (bytes x covered)
    · intro x outside
      exact if_neg outside

theorem readJobs_fills {host : Host} (sound : host.Sound files) {jobs : List Piece}
    (good : ∀ p ∈ jobs, Job files base nbytes p) (room : alignUp nbytes ≤ dest.size) :
    ∃ result, readJobs host files jobs dest = some result ∧
      Fills files base (fun x => ∃ p ∈ jobs, p.Covers x) dest result := by
  induction jobs generalizing dest with
  | nil => exact ⟨(dest, []), rfl, ⟨rfl, nofun, fun _ _ => rfl, nofun⟩⟩
  | cons p jobs ih =>
    obtain ⟨one, first, fills⟩ := readJob_fills sound (good p List.mem_cons_self) room
    have room' : alignUp nbytes ≤ one.1.size := fills.size ▸ room
    obtain ⟨all, rest, fills'⟩ :=
      ih (fun p mem => good p (List.mem_cons_of_mem _ mem)) room'
    refine ⟨(all.1, one.2 ++ all.2), ?_, ⟨fills'.size.trans fills.size, ?_, ?_, ?_⟩⟩
    · rw [readJobs, first, Option.bind_some, rest]
      rfl
    · rintro x ⟨q, mem, covered⟩
      by_cases later : ∃ p ∈ jobs, p.Covers x
      · exact fills'.filled x later
      · rw [fills'.left x later]
        rcases List.mem_cons.mp mem with rfl | there
        · exact fills.filled x covered
        · exact absurd ⟨q, there, covered⟩ later
    · intro x outside
      have later : ¬ ∃ p ∈ jobs, p.Covers x := by
        rintro ⟨q, mem, covered⟩
        exact outside ⟨q, List.mem_cons_of_mem _ mem, covered⟩
      rw [fills'.left x later]
      exact fills.left x fun covered => outside ⟨p, List.mem_cons_self, covered⟩
    · intro call mem
      rcases List.mem_append.mp mem with early | late
      · exact fills.direct call early
      · have direct := fills'.direct call late
        rwa [fills.size] at direct

/-! ## A part of the region -/

theorem FTW.Sound.sortedShards_eq {ck : FTW} {shardLimit : Nat} {tensors : List Tensor}
    (sound : ck.Sound shardLimit tensors) : ck.sortedShards = records 0 0 ck.files := by
  have later : ∀ (files : List (List UInt8)) (file off : Nat), ∀ s ∈ records file off files,
      off ≤ s.globalOff := by
    intro files
    induction files with
    | nil => exact fun _ _ s mem => absurd mem List.not_mem_nil
    | cons data rest ih =>
      intro file off s mem
      rcases List.mem_cons.mp mem with rfl | mem
      · exact Nat.le_refl off
      · have le := ih _ _ s mem
        omega
  have sorted : ∀ (files : List (List UInt8)) (file off : Nat),
      (records file off files).Pairwise fun s s' => decide (s.globalOff ≤ s'.globalOff) = true := by
    intro files
    induction files with
    | nil => exact fun _ _ => .nil
    | cons data rest ih =>
      intro file off
      refine .cons (fun s mem => ?_) (ih _ _)
      have le := later rest _ _ s mem
      exact decide_eq_true (show off ≤ s.globalOff by omega)
  rw [sortedShards, sound.index]
  exact List.mergeSort_of_pairwise (sorted ck.files 0 0)

theorem readInto_fills {host : Host} {ck : FTW} {shardLimit : Nat} {tensors : List Tensor}
    (sound : ck.Sound shardLimit tensors) (machine : host.Sound ck.files) (some_ : 0 < chunk)
    (aligned : align ∣ chunk) (start : align ∣ base)
    (inside : base + nbytes ≤ ck.files.flatten.length) (room : alignUp nbytes ≤ dest.size) :
    ∃ result, readInto host ck chunk base nbytes dest = some result ∧
      (∀ x < nbytes, result.1.at_ x = ck.files.flatten.getD (base + x) 0) ∧
      ∀ call ∈ result.2, Direct dest.size call := by
  have whole : ck.files = [] ++ ck.files := rfl
  obtain ⟨parts, found, good, covers⟩ := pieces_parts sound.blocks start whole
    (Nat.add_zero base).symm (Nat.zero_add nbytes) inside
    fun _ => ⟨Nat.zero_le _, Nat.dvd_zero _⟩
  have order := machine.schedule (parts.flatMap (Piece.chunks chunk))
  have jobs : ∀ p ∈ host.schedule (parts.flatMap (Piece.chunks chunk)),
      Job ck.files base nbytes p := by
    intro p mem
    obtain ⟨part, mem', chunked⟩ := List.mem_flatMap.mp (order.mem_iff.mp mem)
    exact (good part mem').job sound.blocks some_ aligned chunked
  obtain ⟨result, done, fills⟩ := readJobs_fills machine jobs room
  refine ⟨result, ?_, ?_, fills.direct⟩
  · rw [readInto, sound.sortedShards_eq]
    change pieces (records 0 0 ck.files) base 0 nbytes = some parts at found
    rw [found]
    exact done
  · intro x lt
    apply fills.filled
    obtain ⟨part, mem, within⟩ := covers x (Nat.zero_le x) lt
    obtain ⟨p, mem', covered⟩ := Piece.exists_chunk some_ within
    exact ⟨p, order.mem_iff.mpr (List.mem_flatMap.mpr ⟨part, mem, mem'⟩), covered⟩

end FreeSwarm.Checkpoint
