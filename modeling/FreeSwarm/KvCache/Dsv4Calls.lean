import FreeSwarm.KvCache.Dsv4Mapping

/-!
# Runs of pool calls

The calls of the pool on slot lists of the caller, and what every run of them keeps. The pool
checks that an allocation is made of ascending pages but not that they are aligned, unbound and
named once, and that two moved lists are equally long but not that they are whole distinct pages:
these are left to the callers, and `Allowed` states them.
-/

namespace FreeSwarm.KvCache

open FreeSwarm.Foundation Dsv4PagedPool

inductive PoolOp where
  /-- `alloc_swa(full_indices)`. -/
  | allocSwa (fullIndices : List Int)
  /-- `free_swa(full_indices)`. -/
  | freeSwa (fullIndices : List Int)
  /-- `move_swa(dst_full, src_full)`. -/
  | moveSwa (dstFull srcFull : List Int)
  deriving DecidableEq, Repr

namespace PoolOp

def slots : PoolOp → List Int
  | allocSwa full => full
  | freeSwa full => full
  | moveSwa dst src => dst ++ src

/-- The call itself. -/
def apply (pool : Dsv4PagedPool) : PoolOp → Except PoolError Dsv4PagedPool
  | allocSwa full => pool.allocSwa full
  | freeSwa full => pool.freeSwa full
  | moveSwa dst src => pool.moveSwa dst src

end PoolOp

namespace Dsv4PagedPool

/-- A call that raises has changed nothing. -/
def step (pool : Dsv4PagedPool) (op : PoolOp) : Dsv4PagedPool :=
  match op.apply pool with
  | .ok next => next
  | .error _ => pool

/-- Calls one after another. -/
def run (pool : Dsv4PagedPool) (ops : List PoolOp) : Dsv4PagedPool := ops.foldl step pool

def HandedOut (pool : Dsv4PagedPool) (slot : Int) : Prop :=
  0 ≤ slot ∧ slot + (pool.P : Int) < (pool.fullToken : Int)

instance (pool : Dsv4PagedPool) (slot : Int) : Decidable (pool.HandedOut slot) :=
  inferInstanceAs (Decidable (_ ∧ _))

def HandedPage (pool : Dsv4PagedPool) (base : Int) : Prop :=
  PageBase pool.P (pool.fullToken - pool.P) base

/-- What the callers keep of a call. Nothing is asked of a list to be freed, since one that covers a
page partly or more than once is refused. -/
def Allowed (pool : Dsv4PagedPool) : PoolOp → Prop
  | .allocSwa full => ∃ bases : List Int, full = bases.flatMap (pageSlots pool.P) ∧ bases.Nodup ∧
      ∀ b ∈ bases, pool.HandedPage b ∧ pool.fullToWindow b = -1
  | .freeSwa full => ∀ slot ∈ full, 0 ≤ slot → pool.HandedOut slot
  | .moveSwa dst src => ∃ dstBases srcBases : List Int,
      dst = dstBases.flatMap (pageSlots pool.P) ∧ src = srcBases.flatMap (pageSlots pool.P) ∧
      (dstBases ++ srcBases).Nodup ∧ ∀ b ∈ dstBases ++ srcBases, pool.HandedPage b

/-- Tier sizes in slots: whole pages, the dummy page of either tier included. -/
structure Geometry where
  P : Nat
  fullToken : Nat
  nWinSlots : Nat
  positive : 0 < P
  fullPages : P ∣ fullToken
  fullDummy : P ≤ fullToken
  winPages : P ∣ nWinSlots
  winDummy : P ≤ nWinSlots

def Geometry.pool (g : Geometry) : Dsv4PagedPool := initPagedState g.P g.fullToken g.nWinSlots

inductive Reachable (g : Geometry) : Dsv4PagedPool → Prop where
  | start : Reachable g g.pool
  | call {pool : Dsv4PagedPool} (op : PoolOp) (before : Reachable g pool)
      (allowed : pool.Allowed op) : Reachable g (pool.step op)

/-- The mapping property of a pool: whole pages bound to whole pages, no two alike, and every
window page in exactly one place. -/
structure MappingSound (pool : Dsv4PagedPool) : Prop where
  pageAtomic : ∀ b, PageBase pool.P pool.fullToken b →
    (∀ i : Nat, i < pool.P → pool.fullToWindow (b + i) = -1) ∨
      ∃ w, PageBase pool.P pool.nWinSlots w ∧
        ∀ i : Nat, i < pool.P → pool.fullToWindow (b + i) = w + i
  injective : ∀ x y : Int, 0 ≤ x → x < pool.fullToken → 0 ≤ y → y < pool.fullToken →
    pool.fullToWindow x = pool.fullToWindow y → pool.fullToWindow x ≠ -1 → x = y
  exactlyOnce : ∀ w, PageBase pool.P pool.nWinSlots w →
    (pool.winAlloc.free.count w = 1 ∧
        ∀ b, PageBase pool.P pool.fullToken b → pool.fullToWindow b ≠ w) ∨
      (pool.winAlloc.free.count w = 0 ∧
        ∃! b, PageBase pool.P pool.fullToken b ∧ pool.fullToWindow b = w)

/-- The state of a pool in terms of its mapping and its free list. -/
def Sound (pool : Dsv4PagedPool) : Prop :=
  Coherent pool.P pool.fullToken pool.nWinSlots pool.fullToWindow pool.winAlloc.free

end Dsv4PagedPool

theorem PageBase.of_handed {pool : Dsv4PagedPool} {b : Int} (h : pool.HandedPage b) :
    PageBase pool.P pool.fullToken b := by
  obtain ⟨q, same, below⟩ := h
  exact ⟨q, same, by omega⟩

theorem PageBase.floor {pool : Dsv4PagedPool} {slot : Int} (h : pool.HandedOut slot) :
    PageBase pool.P pool.fullToken (floorPage pool.P slot) := by
  obtain ⟨low, high⟩ := h
  obtain ⟨n, rfl⟩ := Int.eq_ofNat_of_zero_le low
  have under : n / pool.P * pool.P ≤ n := Nat.div_mul_le_self n pool.P
  refine ⟨n / pool.P, by simp [floorPage], ?_⟩
  have : floorPage pool.P (n : Int) = ((n / pool.P * pool.P : Nat) : Int) := by simp [floorPage]
  rw [this]
  omega

theorem viewRows_pages (P : Nat) (bases : List Int) :
    viewRows P bases.length (bases.flatMap (pageSlots P)) = bases.map (pageSlots P) := by
  induction bases with
  | nil => rfl
  | cons b bases ih =>
    have front : (pageSlots P b).length = P := pageSlots_length P b
    rw [List.length_cons, List.flatMap_cons, viewRows, List.map_cons, ← ih]
    congr 1
    · rw [List.take_append_of_le_length front.ge, List.take_of_length_le front.le]
    · rw [List.drop_append_of_le_length front.ge, List.drop_of_length_le front.le,
        List.nil_append]

/-- Whole pages have `P` slots each. -/
theorem pages_length (P : Nat) (bases : List Int) :
    (bases.flatMap (pageSlots P)).length = bases.length * P := by
  induction bases with
  | nil => simp
  | cons b bases ih => simp [ih, Nat.succ_mul, Nat.add_comm]

namespace Dsv4PagedPool

variable {pool next : Dsv4PagedPool} {full : List Int}

theorem allocSwa_ok (positive : 0 < pool.P) {bases : List Int}
    (done : pool.allocSwa (bases.flatMap (pageSlots pool.P)) = .ok next) :
    ∃ taken rest, pool.winAlloc.free.Perm (taken ++ rest) ∧ bases.length = taken.length ∧
      next = { pool with
        winAlloc := { pool.winAlloc with free := rest }
        fullToWindow := scatter pool.fullToWindow (bases.flatMap (pageSlots pool.P))
          (taken.flatMap (pageSlots pool.P)) } := by
  unfold allocSwa at done
  by_cases empty : bases = []
  · subst empty
    simp only [List.flatMap_nil, List.length_nil, ↓reduceIte, Except.ok.injEq] at done
    exact ⟨[], pool.winAlloc.free, List.Perm.refl _, rfl, by subst done; simp⟩
  · have count : 0 < bases.length := List.length_pos_iff.mpr empty
    have size : bases.length * pool.P ≠ 0 := (Nat.mul_pos count positive).ne'
    have heads : (bases.map (pageSlots pool.P)).map (fun row => row.headD 0) = bases := by
      rw [List.map_map]
      refine List.map_id'' (fun b => ?_) bases
      obtain ⟨p, same⟩ := Nat.exists_eq_add_of_lt positive
      simp [pageSlots, same, List.range_succ_eq_map]
    simp only [pages_length, size, ↓reduceIte, Nat.mul_mod_left, ne_eq, not_true_eq_false,
      Nat.mul_div_cancel _ positive, viewRows_pages, heads] at done
    by_cases short : pool.winAlloc.free.length < bases.length
    · simp [FreeListAllocator.alloc, short, bind, Except.bind] at done
    · simp only [FreeListAllocator.alloc, short, ↓reduceIte, bind, Except.bind,
        Except.ok.injEq] at done
      refine ⟨_, _, ?_, ?_, done.symm⟩
      · exact (List.Perm.of_eq (List.take_append_drop _ _).symm).trans List.perm_append_comm
      · rw [List.length_drop]
        omega

theorem mem_uniqueBases {P : Nat} {slots : List Int} {b : Int} :
    b ∈ uniqueBases P slots ↔ ∃ slot ∈ slots, floorPage P slot = b := by
  simp [uniqueBases]

theorem uniqueBases_nodup (P : Nat) (slots : List Int) : (uniqueBases P slots).Nodup :=
  (List.perm_insertionSort _ _).nodup_iff.mpr (List.nodup_dedup _)

theorem freeSwa_ok (sound : pool.Sound)
    (positive : 0 < pool.P) (handed : ∀ slot ∈ full, 0 ≤ slot → pool.HandedOut slot)
    (done : pool.freeSwa full = .ok next) :
    ∃ bases : List Int, bases.Nodup ∧ (∀ b ∈ bases, PageBase pool.P pool.fullToken b) ∧
      (∀ b, b ∈ bases ↔ ∃ slot ∈ full, 0 ≤ slot ∧ floorPage pool.P slot = b) ∧
      next = { pool with
        fullToWindow := fill pool.fullToWindow (bases.flatMap (pageSlots pool.P)) (-1)
        winAlloc := pool.winAlloc.release
          ((bases.map pool.fullToWindow).filter fun w => 0 ≤ w) } := by
  unfold freeSwa at done
  have inFull : ∀ {slot}, slot ∈ full.filter (fun slot => 0 ≤ slot) → slot ∈ full ∧ 0 ≤ slot :=
    fun h => by simpa using h
  by_cases empty : (full.filter fun slot => 0 ≤ slot).length = 0
  · have nothing : fill pool.fullToWindow [] (-1) = pool.fullToWindow :=
      funext fun x => fill_of_not_mem List.not_mem_nil
    simp only [empty, ↓reduceIte, Except.ok.injEq] at done
    refine ⟨[], List.nodup_nil, by simp, fun b => ?_, by subst done; simp [nothing,
      FreeListAllocator.release]⟩
    constructor
    · simp
    · rintro ⟨slot, member, low, -⟩
      have : slot ∈ full.filter fun slot => 0 ≤ slot := by simp [member, low]
      rw [List.length_eq_zero_iff.mp empty] at this
      simp at this
  · simp only [empty, ↓reduceIte] at done
    have base : ∀ b ∈ uniqueBases pool.P (full.filter fun slot => 0 ≤ slot),
        PageBase pool.P pool.fullToken b := by
      intro b hb
      obtain ⟨slot, member, rfl⟩ := mem_uniqueBases.mp hb
      exact PageBase.floor (handed slot (inFull member).1 (inFull member).2)
    split at done
    · cases done
    · simp only [Except.ok.injEq] at done
      refine ⟨_, uniqueBases_nodup _ _, base, fun b => ?_, ?_⟩
      · rw [mem_uniqueBases]
        simp [and_assoc]
      · rw [← done]
        congr 2
        refine (List.map_congr_left fun w hw => ?_).trans (List.map_id _)
        obtain ⟨member, low⟩ := List.mem_filter.mp hw
        obtain ⟨b, hb, rfl⟩ := List.mem_map.mp member
        have live : pool.fullToWindow b ≠ -1 := by
          have : 0 ≤ pool.fullToWindow b := by simpa using low
          omega
        have window := (sound.bound positive (base b hb) live).1
        have fixed : floorPage pool.P (pool.fullToWindow b) = pool.fullToWindow b :=
          floorPage_of_mem window ⟨le_refl _, by omega⟩
        exact fixed

theorem Sound.freeSwa (sound : pool.Sound)
    (positive : 0 < pool.P) (handed : ∀ slot ∈ full, 0 ≤ slot → pool.HandedOut slot)
    (done : pool.freeSwa full = .ok next) : next.Sound := by
  obtain ⟨bases, distinct, pages, -, rfl⟩ := freeSwa_ok sound positive handed done
  exact sound.unbindAll positive distinct pages

theorem Sound.allocSwa (sound : pool.Sound)
    (positive : 0 < pool.P) (allowed : pool.Allowed (.allocSwa full))
    (done : pool.allocSwa full = .ok next) : next.Sound := by
  obtain ⟨bases, rfl, distinct, ready⟩ := allowed
  obtain ⟨taken, rest, order, count, rfl⟩ := allocSwa_ok positive done
  exact sound.bindAll positive order count distinct fun b hb =>
    ⟨PageBase.of_handed (ready b hb).1, (ready b hb).2⟩

theorem handed_of_pages {pool : Dsv4PagedPool} {bases : List Int}
    (handed : ∀ b ∈ bases, pool.HandedPage b) {slot : Int}
    (member : slot ∈ bases.flatMap (pageSlots pool.P)) (dummy : pool.P ≤ pool.fullToken) :
    pool.HandedOut slot := by
  obtain ⟨b, hb, inside⟩ := List.mem_flatMap.mp member
  obtain ⟨low, high⟩ := mem_pageSlots.mp inside
  have base := handed b hb
  have := base.nonneg
  obtain ⟨-, -, below⟩ := base
  exact ⟨by omega, by omega⟩

theorem Sound.moveSwa {dst src : List Int} (sound : pool.Sound)
    (positive : 0 < pool.P) (dummy : pool.P ≤ pool.fullToken)
    (allowed : pool.Allowed (.moveSwa dst src)) (done : pool.moveSwa dst src = .ok next) :
    next.Sound := by
  obtain ⟨ds, ss, rfl, rfl, distinct, handed⟩ := allowed
  unfold Dsv4PagedPool.moveSwa at done
  by_cases empty : (ss.flatMap (pageSlots pool.P)).length = 0
  · rw [if_pos empty] at done
    cases done
    exact sound
  · rw [if_neg empty] at done
    by_cases lengths : (ds.flatMap (pageSlots pool.P)).length = (ss.flatMap (pageSlots pool.P)).length
    · rw [if_neg (not_not.mpr lengths)] at done
      have slotsHanded : ∀ slot ∈ ds.flatMap (pageSlots pool.P), 0 ≤ slot → pool.HandedOut slot :=
        fun slot member _ => handed_of_pages
          (fun b hb => handed b (List.mem_append_left _ hb)) member dummy
      cases freed : pool.freeSwa (ds.flatMap (pageSlots pool.P)) with
      | error e => simp [freed, bind, Except.bind] at done
      | ok mid =>
        simp only [freed, bind, Except.bind, Except.ok.injEq] at done
        obtain ⟨bases, basesNodup, pages, cover, rfl⟩ := freeSwa_ok sound positive slotsHanded freed
        subst done
        have count : ds.length = ss.length := by
          rw [pages_length, pages_length] at lengths
          exact Nat.eq_of_mul_eq_mul_right positive lengths
        refine (sound.unbindAll positive basesNodup pages).rehomeAll positive count distinct
          (fun b hb => PageBase.of_handed (handed b hb)) fun d hd => ?_
        have base := PageBase.of_handed (handed d (List.mem_append_left _ hd))
        have own : d ∈ pageSlots pool.P d := mem_pageSlots.mpr ⟨le_refl _, by omega⟩
        have covered : d ∈ bases := (cover d).mpr ⟨d, List.mem_flatMap.mpr ⟨d, hd, own⟩, base.nonneg,
          floorPage_of_mem base ⟨le_refl _, by omega⟩⟩
        exact fill_of_mem (List.mem_flatMap.mpr ⟨d, covered, own⟩)
    · rw [if_pos lengths] at done
      cases done

def SameSizes (pool next : Dsv4PagedPool) : Prop :=
  next.P = pool.P ∧ next.fullToken = pool.fullToken ∧ next.nWinSlots = pool.nWinSlots

theorem allocSwa_sizes
    (done : pool.allocSwa full = .ok next) : SameSizes pool next := by
  unfold allocSwa at done
  split at done
  · cases done
    exact ⟨rfl, rfl, rfl⟩
  · split at done
    · cases done
    · simp only at done
      split at done
      · cases done
      · simp only [FreeListAllocator.alloc, bind, Except.bind] at done
        split at done
        · cases done
        · cases done
          exact ⟨rfl, rfl, rfl⟩

theorem freeSwa_sizes
    (done : pool.freeSwa full = .ok next) : SameSizes pool next := by
  unfold Dsv4PagedPool.freeSwa at done
  simp only at done
  split at done
  · cases done
    exact ⟨rfl, rfl, rfl⟩
  · split at done
    · cases done
    · cases done
      exact ⟨rfl, rfl, rfl⟩

theorem moveSwa_sizes {dst src : List Int}
    (done : pool.moveSwa dst src = .ok next) : SameSizes pool next := by
  unfold Dsv4PagedPool.moveSwa at done
  split at done
  · cases done
    exact ⟨rfl, rfl, rfl⟩
  · split at done
    · cases done
    · cases freed : pool.freeSwa dst with
      | error e => simp [freed, bind, Except.bind] at done
      | ok mid =>
        simp only [freed, bind, Except.bind, Except.ok.injEq] at done
        subst done
        obtain ⟨hP, hN, hM⟩ := freeSwa_sizes freed
        exact ⟨hP, hN, hM⟩

theorem step_cases (pool : Dsv4PagedPool) (op : PoolOp) :
    pool.step op = pool ∨ op.apply pool = .ok (pool.step op) := by
  unfold step
  cases op.apply pool with
  | ok next => exact .inr rfl
  | error e => exact .inl rfl

theorem step_sizes (pool : Dsv4PagedPool) (op : PoolOp) : SameSizes pool (pool.step op) := by
  rcases pool.step_cases op with same | done
  · rw [same]
    exact ⟨rfl, rfl, rfl⟩
  · cases op with
    | allocSwa full => exact allocSwa_sizes done
    | freeSwa full => exact freeSwa_sizes done
    | moveSwa dst src => exact moveSwa_sizes done

theorem Sound.step {pool : Dsv4PagedPool} (sound : pool.Sound) (positive : 0 < pool.P)
    (dummy : pool.P ≤ pool.fullToken) {op : PoolOp} (allowed : pool.Allowed op) :
    (pool.step op).Sound := by
  rcases pool.step_cases op with same | done
  · rwa [same]
  · cases op with
    | allocSwa full => exact sound.allocSwa positive allowed done
    | freeSwa full => exact sound.freeSwa positive allowed done
    | moveSwa dst src => exact sound.moveSwa positive dummy allowed done

theorem mem_freshFree {P pages : Nat} (positive : 0 < P) {w : Int} :
    w ∈ FreeListAllocator.freshFree (P * pages) P ↔ PageBase P (P * pages) w := by
  simp only [FreeListAllocator.freshFree, Nat.mul_div_cancel_left _ positive, List.mem_map,
    List.mem_range, PageBase]
  constructor
  · rintro ⟨q, below, rfl⟩
    have : (q + 1) * P ≤ pages * P := Nat.mul_le_mul_right P below
    exact ⟨q, rfl, by push_cast; nlinarith⟩
  · rintro ⟨q, rfl, below⟩
    refine ⟨q, ?_, rfl⟩
    by_contra above
    have : pages * P ≤ q * P := Nat.mul_le_mul_right P (Nat.le_of_not_lt above)
    push_cast at below this
    nlinarith

theorem coherent_fresh (P N pages : Nat) (positive : 0 < P) :
    Coherent P N (P * pages) (fun _ => -1) (FreeListAllocator.freshFree (P * pages) P) where
  freeNodup := by
    refine List.Nodup.map ?_ List.nodup_range
    intro i j same
    simp only at same
    exact Nat.eq_of_mul_eq_mul_right positive (by exact_mod_cast same)
  freeBase _ hw := (mem_freshFree positive).mp hw
  atomic _ _ := .inl fun _ _ => rfl
  injective _ _ _ _ _ live := absurd rfl live
  covered _ hw := .inl ((mem_freshFree positive).mpr hw)

/-- The initial pool is sound: the dummy page is bound and every other window page free. -/
theorem Geometry.pool_sound (g : Geometry) : g.pool.Sound := by
  obtain ⟨P, N, M, positive, ⟨n, rfl⟩, fullDummy, ⟨m, rfl⟩, winDummy⟩ := g
  obtain ⟨n, rfl⟩ : ∃ k, n = k + 1 := Nat.exists_eq_succ_of_ne_zero fun e => by subst e; omega
  obtain ⟨m, rfl⟩ : ∃ k, m = k + 1 := Nat.exists_eq_succ_of_ne_zero fun e => by subst e; omega
  have fullTail : P * (n + 1) - P = n * P := by rw [Nat.mul_succ, Nat.add_sub_cancel, Nat.mul_comm]
  have winTail : P * (m + 1) - P = P * m := by rw [Nat.mul_succ, Nat.add_sub_cancel]
  have units : (FreeListAllocator.freshFree (P * (m + 1)) P).Perm
      (((P * m : Nat) : Int) :: FreeListAllocator.freshFree (P * m) P) := by
    simp only [FreeListAllocator.freshFree, Nat.mul_div_cancel_left _ positive, List.range_succ,
      List.map_append, List.map_cons, List.map_nil, Nat.mul_comm P m,
      Nat.mul_div_cancel _ positive]
    exact List.perm_append_comm
  have dummy : PageBase P (P * (n + 1)) ((n * P : Nat) : Int) :=
    ⟨n, rfl, by push_cast; nlinarith⟩
  have start := (coherent_fresh P (P * (n + 1)) (m + 1) positive).bind positive units dummy rfl
  simpa only [Sound, Geometry.pool, initPagedState, bindWindowPages, FreeListAllocator.new,
    scatter_pageSlots, fullTail, winTail] using start

theorem Reachable.sound {g : Geometry} {pool : Dsv4PagedPool} (reached : Reachable g pool) :
    pool.Sound ∧ SameSizes g.pool pool := by
  induction reached with
  | start => exact ⟨g.pool_sound, rfl, rfl, rfl⟩
  | call op before allowed ih =>
    obtain ⟨sound, hP, hN, hM⟩ := ih
    obtain ⟨hP', hN', hM'⟩ := step_sizes _ op
    refine ⟨sound.step (hP ▸ g.positive) (hP ▸ hN ▸ g.fullDummy) allowed, ?_, ?_, ?_⟩
    · exact hP'.trans hP
    · exact hN'.trans hN
    · exact hM'.trans hM

theorem exists_page {P slots : Nat} (positive : 0 < P) (pages : P ∣ slots) {x : Int} (low : 0 ≤ x)
    (high : x < slots) : ∃ b : Int, ∃ i : Nat, PageBase P slots b ∧ i < P ∧ x = b + i := by
  obtain ⟨n, rfl⟩ := Int.eq_ofNat_of_zero_le low
  obtain ⟨count, rfl⟩ := pages
  have below : n / P < count := (Nat.div_lt_iff_lt_mul positive).mpr (by
    rw [Nat.mul_comm]; exact_mod_cast high)
  have split : n / P * P + n % P = n := Nat.div_add_mod' n P
  have room : (n / P + 1) * P ≤ P * count := by
    rw [Nat.mul_comm P]
    exact Nat.mul_le_mul_right P below
  refine ⟨((n / P * P : Nat) : Int), n % P, ⟨n / P, rfl, ?_⟩, Nat.mod_lt n positive, ?_⟩
  · rw [Nat.succ_mul] at room
    exact_mod_cast room
  · exact_mod_cast split.symm

theorem Sound.mappingSound {pool : Dsv4PagedPool} (sound : pool.Sound) (positive : 0 < pool.P)
    (pages : pool.P ∣ pool.fullToken) : MappingSound pool where
  pageAtomic b hb := (sound.atomic b hb).imp id fun ⟨base, _, offsets⟩ => ⟨_, base, offsets⟩
  injective x y lowX highX lowY highY same live := by
    obtain ⟨b, i, hb, hi, rfl⟩ := exists_page positive pages lowX highX
    obtain ⟨b', i', hb', hi', rfl⟩ := exists_page positive pages lowY highY
    have liveB : pool.fullToWindow b ≠ -1 := fun dead => live (sound.unbound hb dead i hi)
    have liveB' : pool.fullToWindow b' ≠ -1 := fun dead =>
      live (same.trans (sound.unbound hb' dead i' hi'))
    obtain ⟨base, -, offsets⟩ := sound.bound positive hb liveB
    obtain ⟨base', -, offsets'⟩ := sound.bound positive hb' liveB'
    rw [offsets i hi, offsets' i' hi'] at same
    have windows := base.eq_of_shared (x := pool.fullToWindow b + i) base' ⟨by omega, by omega⟩
      ⟨by omega, by omega⟩
    have := sound.injective b b' hb hb' windows liveB
    omega
  exactlyOnce w hw := by
    rcases sound.covered w hw with free | ⟨b, hb, at'⟩
    · refine .inl ⟨List.count_eq_one_of_mem sound.freeNodup free, fun b hb same => ?_⟩
      have := hw.nonneg
      exact (sound.bound positive hb (by omega)).2.1 (same ▸ free)
    · have live : pool.fullToWindow b ≠ -1 := by
        have := hw.nonneg
        omega
      refine .inr ⟨List.count_eq_zero.mpr (at' ▸ (sound.bound positive hb live).2.1), b,
        ⟨hb, at'⟩, fun b' ⟨hb', at''⟩ => ?_⟩
      exact sound.injective b' b hb' hb (at''.trans at'.symm) (by rwa [at'', ← at'])

theorem freeSwa_again (positive : 0 < pool.P)
    (done : pool.freeSwa full = .ok next) : next.freeSwa full = .ok next := by
  unfold Dsv4PagedPool.freeSwa at done ⊢
  simp only at done ⊢
  split at done
  · rename_i empty
    cases done
    exact if_pos empty
  · rename_i empty
    split at done
    · cases done
    · rename_i complete
      cases done
      rw [if_neg empty, if_neg complete]
      have own : ∀ b : Int, b ∈ pageSlots pool.P b := fun b => mem_pageSlots.mpr ⟨le_refl _, by omega⟩
      generalize uniqueBases pool.P (full.filter fun slot => 0 ≤ slot) = bases
      have dead : (bases.map (fill pool.fullToWindow (bases.flatMap (pageSlots pool.P)) (-1))).filter
          (fun w => 0 ≤ w) = [] := by
        rw [List.filter_eq_nil_iff]
        intro w hw
        obtain ⟨b, hb, rfl⟩ := List.mem_map.mp hw
        rw [fill_of_mem (List.mem_flatMap.mpr ⟨b, hb, own b⟩)]
        decide
      have twice : ∀ (f : Int → Int) (idx : List Int), fill (fill f idx (-1)) idx (-1) =
          fill f idx (-1) := by
        intro f idx
        funext x
        by_cases inside : x ∈ idx
        · rw [fill_of_mem inside, fill_of_mem inside]
        · rw [fill_of_not_mem inside]
      simp only [dead, twice, FreeListAllocator.release, List.map_nil, List.append_nil]

theorem freeSwa_unbound (sound : pool.Sound)
    (positive : 0 < pool.P) (handed : ∀ slot ∈ full, 0 ≤ slot → pool.HandedOut slot)
    (unbound : ∀ slot ∈ full, 0 ≤ slot → pool.fullToWindow slot = -1)
    (done : pool.freeSwa full = .ok next) : next = pool := by
  obtain ⟨bases, -, pages, cover, rfl⟩ := freeSwa_ok sound positive handed done
  have dead : ∀ b ∈ bases, pool.fullToWindow b = -1 := by
    intro b hb
    obtain ⟨slot, member, low, rfl⟩ := (cover _).mp hb
    by_contra live
    have offsets := (sound.bound positive (pages _ hb) live)
    have below : slot % (pool.P : Int) < pool.P := Int.emod_lt_of_pos _ (by exact_mod_cast positive)
    have above : 0 ≤ slot % (pool.P : Int) := Int.emod_nonneg _ (by omega)
    have split : floorPage pool.P slot + slot % (pool.P : Int) = slot := Int.ediv_mul_add_emod _ _
    have at' := offsets.2.2 (slot % (pool.P : Int)).toNat (by omega)
    rw [Int.toNat_of_nonneg above, split, unbound slot member low] at at'
    have := offsets.1.nonneg
    omega
  have nothing : (bases.map pool.fullToWindow).filter (fun w => 0 ≤ w) = [] := by
    rw [List.filter_eq_nil_iff]
    intro w hw
    obtain ⟨b, hb, rfl⟩ := List.mem_map.mp hw
    rw [dead b hb]
    decide
  have same : fill pool.fullToWindow (bases.flatMap (pageSlots pool.P)) (-1) = pool.fullToWindow := by
    funext x
    by_cases inside : x ∈ bases.flatMap (pageSlots pool.P)
    · obtain ⟨b, hb, hx⟩ := List.mem_flatMap.mp inside
      obtain ⟨low, high⟩ := mem_pageSlots.mp hx
      have := sound.unbound (pages b hb) (dead b hb) (x - b).toNat (by omega)
      rw [show b + ((x - b).toNat : Int) = x by omega] at this
      rw [fill_of_mem inside, this]
    · exact fill_of_not_mem inside
  simp only [nothing, same, FreeListAllocator.release, List.append_nil]

theorem stateLoc_block {P slots ring : Nat} (positive : 0 < ring) {w : Int} {i : Nat}
    (hw : PageBase P slots w) (below : i < P) :
    stateLoc (w + i) ring P / (ring : Int) = w / (P : Int) := by
  obtain ⟨q, rfl, -⟩ := hw
  have page : (((q * P : Nat) : Int) + i) / (P : Int) = q := by
    have : (q * P + i) / P = q := by
      rw [Nat.mul_comm, Nat.mul_add_div (by omega), Nat.div_eq_of_lt below, Nat.add_zero]
    exact_mod_cast this
  have base : ((q * P : Nat) : Int) / (P : Int) = q := by
    exact_mod_cast Nat.mul_div_cancel q (by omega : 0 < P)
  have room : (((q * P : Nat) : Int) + i) % (ring : Int) / (ring : Int) = 0 :=
    Int.ediv_eq_zero_of_lt (Int.emod_nonneg _ (by omega))
      (Int.emod_lt_of_pos _ (by exact_mod_cast positive))
  rw [stateLoc, if_neg (by omega), page, base, Int.add_comm,
    Int.add_mul_ediv_right _ _ (by omega : (ring : Int) ≠ 0), room, Int.zero_add]

theorem Sound.stateLoc_apart {pool : Dsv4PagedPool} (sound : pool.Sound) (positive : 0 < pool.P)
    {b b' : Int} (hb : PageBase pool.P pool.fullToken b) (hb' : PageBase pool.P pool.fullToken b')
    (other : b ≠ b') {i i' ring : Nat} (hi : i < pool.P) (hi' : i' < pool.P)
    (live : pool.fullToWindow (b + i) ≠ -1) (live' : pool.fullToWindow (b' + i') ≠ -1)
    (rows : 0 < ring) :
    stateLoc (pool.fullToWindow (b + i)) ring pool.P / (ring : Int) ≠
      stateLoc (pool.fullToWindow (b' + i')) ring pool.P / (ring : Int) := by
  have bound := sound.bound positive hb fun dead => live (sound.unbound hb dead i hi)
  have bound' := sound.bound positive hb' fun dead => live' (sound.unbound hb' dead i' hi')
  rw [bound.2.2 i hi, bound'.2.2 i' hi', stateLoc_block rows bound.1 hi,
    stateLoc_block rows bound'.1 hi']
  intro same
  obtain ⟨q, hq, -⟩ := bound.1
  obtain ⟨q', hq', -⟩ := bound'.1
  have quotients : q = q' := by
    rw [hq, hq'] at same
    have : q * pool.P / pool.P = q' * pool.P / pool.P := by exact_mod_cast same
    rwa [Nat.mul_div_cancel _ positive, Nat.mul_div_cancel _ positive] at this
  refine other (sound.injective b b' hb hb' (by rw [hq, hq', quotients]) ?_)
  rw [hq]
  omega

theorem cmpRow_apart {P ratio : Nat} (positive : 0 < ratio) (divides : ratio ∣ P) {x y : Int}
    (other : floorPage P x ≠ floorPage P y) : cmpRow x ratio ≠ cmpRow y ratio := by
  intro same
  obtain ⟨k, rfl⟩ := divides
  refine other ?_
  unfold cmpRow at same
  unfold floorPage
  push_cast
  rw [← Int.ediv_ediv_of_nonneg (by omega), ← Int.ediv_ediv_of_nonneg (by omega), same]

/-- In every run of allowed calls the mapping of the pool is sound, a free is idempotent, and pages
share neither a state-ring block nor a compressed row. -/
theorem reachable_mapping {g : Geometry} {pool : Dsv4PagedPool} (reached : Reachable g pool) :
    MappingSound pool ∧
      (∀ (full : List Int) (next : Dsv4PagedPool),
        (∀ slot ∈ full, 0 ≤ slot → pool.HandedOut slot) → pool.freeSwa full = .ok next →
          next.freeSwa full = .ok next ∧
            ((∀ slot ∈ full, 0 ≤ slot → pool.fullToWindow slot = -1) → next = pool)) ∧
      ∀ b b' : Int, PageBase pool.P pool.fullToken b → PageBase pool.P pool.fullToken b' → b ≠ b' →
        ∀ i i' : Nat, i < pool.P → i' < pool.P → pool.fullToWindow (b + i) ≠ -1 →
          pool.fullToWindow (b' + i') ≠ -1 →
            (∀ ring : Nat, 0 < ring →
              stateLoc (pool.fullToWindow (b + i)) ring pool.P / (ring : Int) ≠
                stateLoc (pool.fullToWindow (b' + i')) ring pool.P / (ring : Int)) ∧
            ∀ ratio : Nat, 0 < ratio → ratio ∣ pool.P →
              cmpRow (b + i) ratio ≠ cmpRow (b' + i') ratio := by
  obtain ⟨sound, hP, hN, -⟩ := reached.sound
  have positive : 0 < pool.P := hP ▸ g.positive
  have pages : pool.P ∣ pool.fullToken := hP ▸ hN ▸ g.fullPages
  refine ⟨sound.mappingSound positive pages, fun full next handed done => ?_, ?_⟩
  · exact ⟨freeSwa_again positive done, fun unbound =>
      freeSwa_unbound sound positive handed unbound done⟩
  · intro b b' hb hb' other i i' hi hi' live live'
    refine ⟨fun ring rows => sound.stateLoc_apart positive hb hb' other hi hi' live live' rows,
      fun ratio rows divides => cmpRow_apart rows divides ?_⟩
    rwa [floorPage_of_mem hb ⟨by omega, by omega⟩, floorPage_of_mem hb' ⟨by omega, by omega⟩]

/-- Three usable pages of two slots in either tier, and the dummy pages. -/
def smallGeometry : Geometry :=
  ⟨2, 8, 8, by decide, by decide, by decide, by decide, by decide⟩

/-- The theorem at a run that allocates a page, moves it under another and frees it. -/
theorem reachable_mapping_small :
    MappingSound (((smallGeometry.pool.step (.allocSwa [0, 1])).step (.moveSwa [2, 3] [0, 1])).step
      (.freeSwa [2, 3])) := by
  have first : smallGeometry.pool.Allowed (.allocSwa [0, 1]) := by
    refine ⟨[0], by decide, by decide, fun b hb => ?_⟩
    obtain rfl := List.mem_singleton.mp hb
    exact ⟨⟨0, by decide, by decide⟩, by decide⟩
  have second : (smallGeometry.pool.step (.allocSwa [0, 1])).Allowed (.moveSwa [2, 3] [0, 1]) := by
    refine ⟨[2], [0], by decide, by decide, by decide, fun b hb => ?_⟩
    rcases List.mem_cons.mp hb with rfl | hb
    · exact ⟨1, by decide, by decide⟩
    · obtain rfl := List.mem_singleton.mp hb
      exact ⟨0, by decide, by decide⟩
  have third : ((smallGeometry.pool.step (.allocSwa [0, 1])).step
      (.moveSwa [2, 3] [0, 1])).Allowed (.freeSwa [2, 3]) := by
    intro slot hslot _
    have : slot = 2 ∨ slot = 3 := by simpa using hslot
    rcases this with rfl | rfl <;> decide
  exact (reachable_mapping (((Reachable.start.call _ first).call _ second).call _ third)).1

/-- The calls name only slots handed out, and the mapping is not sound after them. -/
def BreaksMapping (pool : Dsv4PagedPool) (ops : List PoolOp) : Prop :=
  (∀ op ∈ ops, ∀ slot ∈ op.slots, pool.HandedOut slot) ∧ ¬ MappingSound (pool.run ops)

theorem unsound_of_lost {pool : Dsv4PagedPool} (size : pool.P = 2) (window : pool.nWinSlots = 8)
    (full : pool.fullToken = 8) (notFree : pool.winAlloc.free.count 4 = 0)
    (notBound : ∀ q : Nat, q < 4 → pool.fullToWindow (q * 2 : Nat) ≠ 4) :
    ¬ MappingSound pool := by
  intro sound
  have page : PageBase pool.P pool.nWinSlots 4 := by
    rw [size, window]
    exact ⟨2, by decide, by decide⟩
  rcases sound.exactlyOnce 4 page with ⟨once, -⟩ | ⟨-, b, ⟨⟨q, rfl, high⟩, at'⟩, -⟩
  · omega
  · rw [size] at at' high
    rw [full] at high
    exact notBound q (by push_cast at high; omega) at'

/-- Calls on slots handed out that are not allowed break the mapping: a bound page allocated again
loses its window page, an unaligned run of slots is bound across two pages, a source page named
twice ends under two pages, an unaligned source splits a page, and a page that is destination and
source at once loses its window page. -/
theorem mapping_unsound_outside_contract :
    smallGeometry.pool.BreaksMapping [.allocSwa [0, 1], .allocSwa [0, 1]] ∧
      smallGeometry.pool.BreaksMapping [.allocSwa [1, 2]] ∧
      smallGeometry.pool.BreaksMapping [.allocSwa [0, 1], .moveSwa [2, 3, 4, 5] [0, 1, 0, 1]] ∧
      smallGeometry.pool.BreaksMapping [.allocSwa [0, 1, 2, 3], .moveSwa [4, 5] [1, 2]] ∧
      smallGeometry.pool.BreaksMapping
        [.allocSwa [0, 1, 2, 3], .moveSwa [4, 5, 0, 1] [0, 1, 2, 3]] := by
  refine ⟨⟨by decide, ?_⟩, ⟨by decide, fun sound => ?_⟩, ⟨by decide, fun sound => ?_⟩,
    ⟨by decide, fun sound => ?_⟩, ⟨by decide, ?_⟩⟩
  · exact unsound_of_lost (by decide) (by decide) (by decide) (by decide) (by decide)
  · rcases sound.pageAtomic 0 ⟨0, by decide, by decide⟩ with none | ⟨w, hw, offsets⟩
    · exact absurd (none 1 (by decide)) (by decide)
    · have unboundBase : (smallGeometry.pool.run [.allocSwa [1, 2]]).fullToWindow (0 + (0 : Nat)) =
          -1 := by decide
      have := offsets 0 (by decide)
      have := hw.nonneg
      omega
  · exact absurd (sound.injective 2 4 (by decide) (by decide) (by decide) (by decide) (by decide)
      (by decide)) (by decide)
  · rcases sound.pageAtomic 4 ⟨2, by decide, by decide⟩ with none | ⟨w, ⟨q, rfl, -⟩, offsets⟩
    · exact absurd (none 0 (by decide)) (by decide)
    · have splitPage : (smallGeometry.pool.run
          [.allocSwa [0, 1, 2, 3], .moveSwa [4, 5] [1, 2]]).fullToWindow (4 + (0 : Nat)) = 3 := by
        decide
      have size : (smallGeometry.pool.run
          [.allocSwa [0, 1, 2, 3], .moveSwa [4, 5] [1, 2]]).P = 2 := by decide
      have := offsets 0 (by decide)
      rw [splitPage, size] at this
      omega
  · exact unsound_of_lost (by decide) (by decide) (by decide) (by decide) (by decide)

end Dsv4PagedPool

end FreeSwarm.KvCache
