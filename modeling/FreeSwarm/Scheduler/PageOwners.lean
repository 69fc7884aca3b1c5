import Mathlib.Data.List.GetD
import FreeSwarm.Scheduler.Request

/-!
# Every page has one owner

A page is free, is owned elsewhere (by a prefix cache, or on its way to a row), or lies in the span of
a row that a request owns. The operations of the pool and the writes into the table move pages
between the three and neither copy nor lose one, whatever the prefix cache is.
-/

namespace FreeSwarm.Scheduler

open FreeSwarm.Foundation

/-! ## Rows -/

namespace PageTable

variable {t : PageTable} {idx start mid stop : Nat} {slots : List Int}

@[simp] theorem length_row (t : PageTable) (idx start stop : Nat) :
    (t.row idx start stop).length = stop - start := by
  rw [row, List.length_map, List.length_range']

@[simp] theorem row_self (t : PageTable) (idx start : Nat) : t.row idx start start = [] := by
  rw [row, Nat.sub_self, List.range'_zero, List.map_nil]

theorem row_append (first : start ≤ mid) (second : mid ≤ stop) :
    t.row idx start mid ++ t.row idx mid stop = t.row idx start stop := by
  have meet : start + 1 * (mid - start) = mid := by omega
  have whole : stop - start = mid - start + (stop - mid) := by omega
  rw [row, row, row, ← List.map_append, whole, ← List.range'_append, meet]

theorem drop_row (first : start ≤ mid) : (t.row idx start stop).drop (mid - start) =
    t.row idx mid stop := by
  by_cases short : mid ≤ stop
  · rw [← row_append first short, List.drop_left' (length_row t idx start mid)]
  · rw [List.drop_eq_nil_of_le (by rw [length_row]; omega), row, Nat.sub_eq_zero_of_le (by omega),
      List.range'_zero, List.map_nil]

theorem take_row (first : start ≤ mid) (second : mid ≤ stop) :
    (t.row idx start stop).take (mid - start) = t.row idx start mid := by
  rw [← row_append first second, List.take_left' (length_row t idx start mid)]

theorem slice_row (inside : mid ≤ stop) : ((t.row idx 0 stop).take mid).drop start =
    t.row idx start mid := by
  have first := @take_row t idx 0 mid stop (Nat.zero_le _) inside
  rw [Nat.sub_zero] at first
  have rest := @drop_row t idx 0 start mid (Nat.zero_le _)
  rw [Nat.sub_zero] at rest
  rw [first, rest]

theorem row_write_of_out {idx' from_ : Nat}
    (out : idx' = idx → stop ≤ from_ ∨ from_ + slots.length ≤ start) :
    (t.write idx from_ slots).row idx' start stop = t.row idx' start stop := by
  refine List.map_congr_left fun p hp => if_neg ?_
  rintro ⟨same, low, high⟩
  have bounds := List.mem_range'_1.mp hp
  rcases out same with h | h <;> omega

theorem row_write_self : (t.write idx start slots).row idx start (start + slots.length) = slots := by
  refine List.ext_getElem (by simp) fun i hi hi' => ?_
  rw [length_row] at hi
  simp only [row, List.getElem_map, List.getElem_range', Nat.one_mul, write]
  rw [if_pos ⟨trivial, Nat.le_add_right _ _, by omega⟩, Nat.add_sub_cancel_left,
    List.getD_eq_getElem _ _ hi']

end PageTable

/-! ## Owners -/

/-- A part of a row. -/
structure Span where
  idx : Nat
  start : Nat
  stop : Nat
  deriving DecidableEq, Repr

namespace PagePool

variable (p : PagePool)

def allPages : List Int :=
  (List.range p.numPages).map fun i : Nat => (i : Int) * p.pageSize

def freePages : List Int := p.freeSlots ++ p.lazyFree.getD []

def spanSlots (s : Span) : List Int := p.pageTable.row s.idx s.start s.stop

def spanPages (s : Span) : List Int := stride p.pageSize (p.spanSlots s)

structure Aligned (s : Span) : Prop where
  start : p.pageSize ∣ s.start
  stop : p.pageSize ∣ s.stop
  ordered : s.start ≤ s.stop
  paged : Paged p.pageSize (p.spanSlots s)

/-- Every page is free, owned elsewhere or in one of the spans, and in one place only. -/
structure Owned (others : List Int) (spans : List Span) : Prop where
  positive : 0 < p.pageSize
  aligned : ∀ s ∈ spans, p.Aligned s
  rows : (spans.map Span.idx).Nodup
  all : (p.freePages ++ (others ++ spans.flatMap p.spanPages)).Perm p.allPages

variable {p p' : PagePool} {others : List Int} {spans : List Span} {s : Span}

theorem nodup_allPages (positive : 0 < p.pageSize) : p.allPages.Nodup := by
  refine List.Nodup.map_on (fun i _ j _ same => ?_) List.nodup_range
  have nonzero : (p.pageSize : Int) ≠ 0 := by omega
  exact Int.ofNat.inj (Int.eq_of_mul_eq_mul_right nonzero same)

theorem allocationInfo_eq_nil {H : Type} {page : Nat} {reqs : List (RunningReq H)}
    (nothing : neededPages (allocationInfo page reqs) = 0) : allocationInfo page reqs = [] := by
  refine List.eq_nil_iff_forall_not_mem.mpr fun i mem => ?_
  have none := List.sum_eq_zero_iff_forall_eq_nat.mp nothing _ (List.mem_map_of_mem mem)
  obtain ⟨r, -, found⟩ := List.mem_filterMap.mp mem
  simp only at found
  split at found
  · cases found
    simp only at none
    omega
  · exact absurd found (by simp)

theorem owned_create {numPages page : Nat} (positive : 0 < page) (t : PageTable) :
    (create numPages page t).Owned [] [] :=
  { positive := positive, aligned := by simp, rows := by simp
    all := by simp [create, freePages, allPages] }

namespace Owned

theorem perm (h : p.Owned others spans) {others' : List Int} (same : others.Perm others') :
    p.Owned others' spans :=
  { h with
    all := ((same.symm.append_right _).append_left _).trans h.all }

theorem perm_spans (h : p.Owned others spans) {spans' : List Span} (same : spans.Perm spans') :
    p.Owned others spans' :=
  { positive := h.positive
    aligned := fun s mem => h.aligned s (same.mem_iff.mpr mem)
    rows := (same.map Span.idx).nodup_iff.mp h.rows
    all := (((same.symm.flatMap_right _).append_left _).append_left _).trans h.all }

theorem enterLazyFree (h : p.Owned others spans) (outside : p.lazyFree = none) :
    p.enterLazyFree.Owned others spans := by
  have same : p.enterLazyFree.freePages = p.freePages := by
    simp [PagePool.enterLazyFree, freePages, outside]
  refine { positive := h.positive, aligned := fun s mem => ?_, rows := h.rows, all := ?_ }
  · exact ⟨(h.aligned s mem).start, (h.aligned s mem).stop, (h.aligned s mem).ordered,
      (h.aligned s mem).paged⟩
  · rw [same]
    exact h.all

theorem leaveLazyFree (h : p.Owned others spans) : p.leaveLazyFree.Owned others spans := by
  have same : p.leaveLazyFree.freePages = p.freePages := by
    simp [PagePool.leaveLazyFree, freePages]
  refine { positive := h.positive, aligned := fun s mem => ?_, rows := h.rows, all := ?_ }
  · exact ⟨(h.aligned s mem).start, (h.aligned s mem).stop, (h.aligned s mem).ordered,
      (h.aligned s mem).paged⟩
  · rw [same]
    exact h.all

theorem seat (h : p.Owned others spans) {idx start : Nat} (new : ∀ s ∈ spans, s.idx ≠ idx)
    (whole : p.pageSize ∣ start) :
    p.Owned others ({ idx := idx, start := start, stop := start } :: spans) := by
  refine { positive := h.positive, aligned := fun s mem => ?_, rows := ?_, all := ?_ }
  · rcases List.mem_cons.mp mem with rfl | mem
    · exact { start := whole, stop := whole, ordered := le_rfl
              paged := by rw [spanSlots, PageTable.row_self]; exact Paged.nil }
    · exact h.aligned s mem
  · rw [List.map_cons, List.nodup_cons]
    refine ⟨fun again => ?_, h.rows⟩
    obtain ⟨s, mem, same⟩ := List.mem_map.mp again
    exact new s mem same
  · rw [List.flatMap_cons, spanPages, spanSlots, PageTable.row_self]
    exact h.all

theorem leave (h : p.Owned others (s :: spans)) (empty : s.start = s.stop) :
    p.Owned others spans := by
  refine { positive := h.positive, aligned := fun s mem => h.aligned s (List.mem_cons_of_mem _ mem)
           rows := (List.nodup_cons.mp h.rows).2, all := ?_ }
  have all := h.all
  rw [List.flatMap_cons, spanPages, spanSlots, empty, PageTable.row_self] at all
  exact all

theorem release (h : p.Owned others (s :: spans)) {mid : Nat} (whole : p.pageSize ∣ mid)
    (first : s.start ≤ mid) (second : mid ≤ s.stop) :
    Paged p.pageSize (p.pageTable.row s.idx s.start mid) ∧
    p.Owned (stride p.pageSize (p.pageTable.row s.idx s.start mid) ++ others)
      ({ s with start := mid } :: spans) := by
  have here := h.aligned s List.mem_cons_self
  have paged := here.paged
  have split := @PageTable.row_append p.pageTable s.idx s.start mid s.stop first second
  have front : Paged p.pageSize (p.pageTable.row s.idx s.start mid) := by
    have taken := paged.take (Nat.dvd_sub whole here.start)
    rw [spanSlots, PageTable.take_row first second] at taken
    exact taken
  have back : Paged p.pageSize (p.pageTable.row s.idx mid s.stop) := by
    have dropped := paged.drop (Nat.dvd_sub whole here.start)
    rw [spanSlots, PageTable.drop_row first] at dropped
    exact dropped
  refine ⟨front, { positive := h.positive, aligned := fun s' mem => ?_, rows := h.rows, all := ?_ }⟩
  · rcases List.mem_cons.mp mem with rfl | mem
    · exact { start := whole, stop := here.stop, ordered := second, paged := back }
    · exact h.aligned s' (List.mem_cons_of_mem _ mem)
  · have all := h.all
    rw [List.flatMap_cons, spanPages, spanSlots, ← split, front.stride_append back h.positive] at all
    refine List.Perm.trans (List.Perm.append_left _ ?_) all
    rw [List.flatMap_cons, spanPages, spanSlots, List.append_assoc, List.append_assoc]
    -- The first part moves over the pages owned elsewhere.
    exact (List.perm_append_comm_assoc _ _ _)

theorem free {indices : List Int} (h : p.Owned (stride p.pageSize indices ++ others) spans) :
    (p.free indices).Owned others spans := by
  have all := h.all
  have same : (p.free indices).pageSize = p.pageSize ∧ (p.free indices).pageTable = p.pageTable ∧
      (p.free indices).numPages = p.numPages ∧
      (p.free indices).freePages = p.freePages ++ stride p.pageSize indices := by
    unfold PagePool.free freePages
    split <;> rename_i lazy <;> simp [lazy, List.append_assoc]
  obtain ⟨pageSize, pageTable, numPages, pages⟩ := same
  refine { positive := by rw [pageSize]; exact h.positive, aligned := fun s mem => ?_,
           rows := h.rows, all := ?_ }
  · have here := h.aligned s mem
    exact { start := pageSize ▸ here.start, stop := pageSize ▸ here.stop, ordered := here.ordered,
            paged := by rw [spanSlots, pageSize, pageTable]; exact here.paged }
  · have spanPages_eq : (p.free indices).spanPages = p.spanPages := by
      funext s
      rw [spanPages, spanPages, spanSlots, spanSlots, pageSize, pageTable]
    rw [pages, spanPages_eq, allPages, numPages, pageSize, List.append_assoc]
    rw [List.append_assoc] at all
    exact all

theorem refill {evicted : List Int} (h : p.Owned (stride p.pageSize evicted ++ others) spans) :
    (p.refill evicted).Owned others spans := by
  refine { positive := h.positive, aligned := fun s mem => ?_, rows := h.rows, all := ?_ }
  · have here := h.aligned s mem
    exact ⟨here.start, here.stop, here.ordered, here.paged⟩
  · refine List.Perm.trans ?_ h.all
    simp only [PagePool.refill, freePages, List.append_assoc]
    refine List.Perm.append_left _ ?_
    exact List.perm_append_comm_assoc _ _ _

variable {pages : List Int}

theorem take (h : p.Owned others spans) {neededPages : Nat}
    (taken : p.take neededPages = some (p', pages)) :
    p'.Owned (pages ++ others) spans ∧ pages.length = neededPages ∧
      p' = { p with
        freeSlots := p.freeSlots.drop neededPages } := by
  rw [PagePool.take] at taken
  split at taken
  · rename_i enough
    obtain ⟨rfl, rfl⟩ : _ = p' ∧ _ = pages := by simpa using taken
    refine ⟨{ positive := h.positive, aligned := fun s mem => ?_, rows := h.rows, all := ?_ },
      by rw [List.length_take, Nat.min_eq_left enough], rfl⟩
    · have here := h.aligned s mem
      exact ⟨here.start, here.stop, here.ordered, here.paged⟩
    · refine List.Perm.trans ?_ h.all
      change (p.freeSlots.drop neededPages ++ p.lazyFree.getD [] ++
        (p.freeSlots.take neededPages ++ others ++ spans.flatMap p.spanPages)).Perm
        (p.freeSlots ++ p.lazyFree.getD [] ++ (others ++ spans.flatMap p.spanPages))
      refine List.perm_iff_count.mpr fun page => ?_
      have parts := congrArg (List.count page) (List.take_append_drop neededPages p.freeSlots)
      simp only [List.count_append] at parts ⊢
      omega
  · exact absurd taken (by simp)

theorem write (h : p.Owned others spans) {idx start : Nat} {slots : List Int}
    (out : ∀ s ∈ spans, s.idx = idx → start + slots.length ≤ s.start) :
    PagePool.Owned { p with pageTable := p.pageTable.write idx start slots } others spans := by
  have same : ∀ s ∈ spans, PagePool.spanSlots { p with
      pageTable := p.pageTable.write idx start slots } s = p.spanSlots s := fun s mem =>
    PageTable.row_write_of_out fun here => .inr (out s mem here)
  refine { positive := h.positive, aligned := fun s mem => ?_, rows := h.rows, all := ?_ }
  · have here := h.aligned s mem
    exact ⟨here.start, here.stop, here.ordered, by rw [same s mem]; exact here.paged⟩
  · refine List.Perm.trans (List.Perm.append_left _ (List.Perm.append_left _ ?_)) h.all
    refine List.Perm.of_eq (List.flatMap_congr fun s mem => ?_)
    rw [spanPages, spanPages, same s mem]

theorem grow (h : p.Owned (pages ++ others) (s :: spans)) {k : Nat}
    (enough : k ≤ pages.length) :
    PagePool.Owned { p with
        pageTable := p.pageTable.write s.idx s.stop (toTokens p.pageSize (pages.take k)) }
      (pages.drop k ++ others) ({ s with stop := s.stop + k * p.pageSize } :: spans) := by
  have here := h.aligned s List.mem_cons_self
  have length : (toTokens p.pageSize (pages.take k)).length = k * p.pageSize := by
    rw [length_toTokens, List.length_take, Nat.min_eq_left enough]
  set t := p.pageTable.write s.idx s.stop (toTokens p.pageSize (pages.take k)) with ht
  have own : t.row s.idx s.start (s.stop + k * p.pageSize) =
      p.spanSlots s ++ toTokens p.pageSize (pages.take k) := by
    rw [← PageTable.row_append here.ordered (Nat.le_add_right _ _), ht, ← length,
      PageTable.row_write_self, PageTable.row_write_of_out fun _ => .inl le_rfl]
    rfl
  have other : ∀ s' ∈ spans, t.row s'.idx s'.start s'.stop = p.spanSlots s' := by
    intro s' mem
    refine PageTable.row_write_of_out fun same => absurd ?_ (List.nodup_cons.mp h.rows).1
    rw [← same]
    exact List.mem_map_of_mem mem
  have new : Paged p.pageSize (toTokens p.pageSize (pages.take k)) := ⟨_, rfl⟩
  refine { positive := h.positive, aligned := fun s' mem => ?_, rows := h.rows, all := ?_ }
  · rcases List.mem_cons.mp mem with rfl | mem
    · exact { start := here.start, stop := Nat.dvd_add here.stop (Nat.dvd_mul_left _ _)
              ordered := here.ordered.trans (Nat.le_add_right _ _)
              paged := by
                change Paged p.pageSize (t.row s.idx s.start (s.stop + k * p.pageSize))
                rw [own]
                exact here.paged.append new }
    · have there := h.aligned s' (List.mem_cons_of_mem _ mem)
      refine ⟨there.start, there.stop, there.ordered, ?_⟩
      change Paged p.pageSize (t.row s'.idx s'.start s'.stop)
      rw [other s' mem]
      exact there.paged
  · refine List.Perm.trans ?_ h.all
    have rest : (spans.flatMap fun s' => stride p.pageSize (t.row s'.idx s'.start s'.stop)) =
        spans.flatMap p.spanPages :=
      List.flatMap_congr fun s' mem => by rw [other s' mem, spanPages]
    simp only [List.flatMap_cons]
    change (p.freePages ++ ((pages.drop k ++ others) ++
      (stride p.pageSize (t.row s.idx s.start (s.stop + k * p.pageSize)) ++
        spans.flatMap fun s' => stride p.pageSize (t.row s'.idx s'.start s'.stop)))).Perm _
    rw [own, rest, here.paged.stride_append new h.positive, stride_toTokens h.positive]
    refine List.perm_iff_count.mpr fun page => ?_
    have parts := congrArg (List.count page) (List.take_append_drop k pages)
    simp only [List.count_append, spanPages] at parts ⊢
    omega

/-- The pages allocated for the next forward of some requests belong to their spans, which reach as
far as the forward. -/
theorem writePageTable {H : Type} (start : RunningReq H → Nat) {reqs : List (RunningReq H)}
    (ordered : ∀ r ∈ reqs, r.cachedLen ≤ r.deviceLen)
    (h : p.Owned (pages ++ others) (reqs.map (fun r =>
      { idx := r.tableIdx, start := start r, stop := pageCeil p.pageSize r.cachedLen }) ++ spans))
    (total : pages.length = neededPages (allocationInfo p.pageSize reqs)) :
    (p.writePageTable pages (allocationInfo p.pageSize reqs)).Owned others (reqs.map (fun r =>
      { idx := r.tableIdx, start := start r, stop := pageCeil p.pageSize r.deviceLen }) ++
        spans) := by
  induction reqs generalizing p pages spans with
  | nil =>
    obtain rfl : pages = [] := List.length_eq_zero_iff.mp total
    exact h
  | cons r reqs ih =>
    have rest : ∀ r' ∈ reqs, r'.cachedLen ≤ r'.deviceLen := fun r' mem =>
      ordered r' (List.mem_cons_of_mem _ mem)
    have first := divCeil_mono p.pageSize (ordered r List.mem_cons_self)
    by_cases more : divCeil r.cachedLen p.pageSize < divCeil r.deviceLen p.pageSize
    · set k := divCeil r.deviceLen p.pageSize - divCeil r.cachedLen p.pageSize with hk
      have info : allocationInfo p.pageSize (r :: reqs) =
          (r.tableIdx, divCeil r.cachedLen p.pageSize, divCeil r.deviceLen p.pageSize) ::
            allocationInfo p.pageSize reqs := by
        rw [allocationInfo, List.filterMap_cons]
        simp only [if_pos more]
        rfl
      have needed : pages.length = k + neededPages (allocationInfo p.pageSize reqs) := by
        rw [total, info, neededPages, List.map_cons, List.sum_cons]
        rfl
      have grown := h.grow (k := k) (by omega)
      have reaches : pageCeil p.pageSize r.cachedLen + k * p.pageSize =
          pageCeil p.pageSize r.deviceLen := by
        rw [pageCeil, pageCeil, ← Nat.add_mul, hk, Nat.add_sub_cancel' first]
      simp only [reaches] at grown
      have next := ih rest (grown.perm_spans List.perm_middle.symm)
        (by rw [List.length_drop, needed, Nat.add_sub_cancel_left])
      refine Owned.perm_spans ?_ List.perm_middle
      rw [info]
      simp only [PagePool.writePageTable, PageTable.writePages, ← hk, take_toTokens, drop_toTokens]
        at next ⊢
      exact next
    · have same : divCeil r.deviceLen p.pageSize = divCeil r.cachedLen p.pageSize := by omega
      have info : allocationInfo p.pageSize (r :: reqs) = allocationInfo p.pageSize reqs := by
        rw [allocationInfo, List.filterMap_cons]
        simp only [if_neg more]
        rfl
      rw [info] at total ⊢
      have next := ih rest (h.perm_spans List.perm_middle.symm) total
      rw [List.map_cons, pageCeil, same]
      exact next.perm_spans List.perm_middle

end Owned

end PagePool

end FreeSwarm.Scheduler
