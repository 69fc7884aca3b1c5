import Mathlib.Tactic.Linarith
import FreeSwarm.KvCache.Dsv4PagedPool

/-!
# The full-to-window mapping of the DSV4 pool stays page-atomic

`Coherent` says what the pool keeps: a full page is bound to one window page as a whole or not at
all, no two full pages share a window page, and a window page is free or bound, never both. One
page bound and one page unbound are the two steps from which every pool call is composed.
-/

namespace FreeSwarm.KvCache

open FreeSwarm.Foundation

def PageBase (P slots : Nat) (base : Int) : Prop :=
  ∃ q : Nat, base = ((q * P : Nat) : Int) ∧ base + (P : Int) ≤ (slots : Int)

variable {P slots : Nat}

theorem PageBase.nonneg {base : Int} (h : PageBase P slots base) : 0 ≤ base := by
  obtain ⟨q, rfl, -⟩ := h
  omega

@[simp] theorem mem_pageSlots {P : Nat} {base x : Int} :
    x ∈ pageSlots P base ↔ base ≤ x ∧ x < base + (P : Int) := by
  simp only [pageSlots, List.mem_map, List.mem_range]
  constructor
  · rintro ⟨i, below, rfl⟩
    omega
  · rintro ⟨low, high⟩
    exact ⟨(x - base).toNat, by omega, by omega⟩

theorem pageSlots_nodup (P : Nat) (base : Int) : (pageSlots P base).Nodup := by
  refine List.Nodup.map ?_ List.nodup_range
  intro i j same
  simpa using same

@[simp] theorem pageSlots_length (P : Nat) (base : Int) : (pageSlots P base).length = P := by
  simp [pageSlots]

/-- A quotient and a remainder below the divisor are determined by the number they form. -/
theorem page_offset_unique {P q q' i i' : Nat} (below : i < P) (below' : i' < P)
    (same : q * P + i = q' * P + i') : q = q' ∧ i = i' := by
  have positive : 0 < P := by omega
  have hq : (q * P + i) / P = q := by
    rw [Nat.mul_comm, Nat.mul_add_div positive, Nat.div_eq_of_lt below, Nat.add_zero]
  have hq' : (q' * P + i') / P = q' := by
    rw [Nat.mul_comm, Nat.mul_add_div positive, Nat.div_eq_of_lt below', Nat.add_zero]
  have quotients : q = q' := by rw [← hq, ← hq', same]
  subst quotients
  exact ⟨rfl, by omega⟩

theorem PageBase.eq_of_shared {P slots slots' : Nat} {b b' x : Int} (hb : PageBase P slots b)
    (hb' : PageBase P slots' b') (hx : b ≤ x ∧ x < b + (P : Int))
    (hx' : b' ≤ x ∧ x < b' + (P : Int)) : b = b' := by
  obtain ⟨q, rfl, -⟩ := hb
  obtain ⟨q', rfl, -⟩ := hb'
  have same : q * P + (x - (q * P : Nat)).toNat = q' * P + (x - (q' * P : Nat)).toNat := by omega
  obtain ⟨rfl, -⟩ := page_offset_unique (by omega) (by omega) same
  rfl

theorem floorPage_of_mem {b x : Int} (hb : PageBase P slots b)
    (hx : b ≤ x ∧ x < b + (P : Int)) : Dsv4PagedPool.floorPage P x = b := by
  obtain ⟨q, rfl, -⟩ := hb
  obtain ⟨i, rfl⟩ : ∃ i : Nat, x = ((q * P + i : Nat) : Int) :=
    ⟨(x - (q * P : Nat)).toNat, by push_cast at hx ⊢; omega⟩
  have below : i < P := by push_cast at hx; omega
  have quotient : (q * P + i) / P = q := by
    rw [Nat.mul_comm, Nat.mul_add_div (by omega), Nat.div_eq_of_lt below, Nat.add_zero]
  unfold Dsv4PagedPool.floorPage
  rw [← Int.natCast_ediv, quotient, ← Nat.cast_mul]

/-- Bind the page at `b` to the window page at `w`, offsets kept. -/
def bindPage (P : Nat) (f : Int → Int) (b w : Int) : Int → Int :=
  fun x => if b ≤ x ∧ x < b + (P : Int) then w + (x - b) else f x

theorem scatter_pageSlots (P : Nat) (f : Int → Int) (b w : Int) :
    scatter f (pageSlots P b) (pageSlots P w) = bindPage P f b w := by
  have shifted : pageSlots P w = (pageSlots P b).map fun x => w + (x - b) := by
    simp only [pageSlots, List.map_map]
    exact List.map_congr_left fun i _ => by simp
  funext x
  rw [shifted]
  by_cases inside : x ∈ pageSlots P b
  · rw [scatter_map_of_mem (pageSlots_nodup P b) inside, bindPage, if_pos (mem_pageSlots.mp inside)]
  · rw [scatter_of_not_mem inside, bindPage, if_neg (fun h => inside (mem_pageSlots.mpr h))]

/-- What the pool keeps of its mapping and its free list of window pages. -/
structure Coherent (P fullToken nWinSlots : Nat) (f : Int → Int) (free : List Int) : Prop where
  freeNodup : free.Nodup
  freeBase : ∀ w ∈ free, PageBase P nWinSlots w
  atomic : ∀ b, PageBase P fullToken b →
    (∀ i : Nat, i < P → f (b + i) = -1) ∨
      (PageBase P nWinSlots (f b) ∧ f b ∉ free ∧ ∀ i : Nat, i < P → f (b + i) = f b + i)
  injective : ∀ b b', PageBase P fullToken b → PageBase P fullToken b' → f b = f b' → f b ≠ -1 →
    b = b'
  covered : ∀ w, PageBase P nWinSlots w → w ∈ free ∨ ∃ b, PageBase P fullToken b ∧ f b = w

variable {f : Int → Int}

theorem bindPage_other {b b' w : Int} (hb : PageBase P slots b)
    (hb' : PageBase P slots b') (other : b' ≠ b) {i : Nat} (below : i < P) :
    bindPage P f b w (b' + i) = f (b' + i) := by
  refine if_neg fun inside => other ?_
  exact (hb.eq_of_shared hb' inside ⟨by omega, by omega⟩).symm

theorem bindPage_self {P : Nat} {b w : Int} {i : Nat} (below : i < P) :
    bindPage P f b w (b + i) = w + i := by
  rw [bindPage, if_pos ⟨by omega, by omega⟩]
  omega

theorem unbind_other {b b' : Int} (hb : PageBase P slots b)
    (hb' : PageBase P slots b') (other : b' ≠ b) {i : Nat} (below : i < P) :
    fill f (pageSlots P b) (-1) (b' + i) = f (b' + i) := by
  refine fill_of_not_mem fun inside => other ?_
  exact (hb.eq_of_shared hb' (mem_pageSlots.mp inside) ⟨by omega, by omega⟩).symm

theorem unbind_self {P : Nat} {b : Int} {i : Nat} (below : i < P) :
    fill f (pageSlots P b) (-1) (b + i) = -1 :=
  fill_of_mem (mem_pageSlots.mpr ⟨by omega, by omega⟩)

namespace Coherent

variable {P N M : Nat} {f : Int → Int} {free : List Int}

theorem perm {free' : List Int} (h : Coherent P N M f free) (same : free.Perm free') :
    Coherent P N M f free' where
  freeNodup := same.nodup_iff.mp h.freeNodup
  freeBase w hw := h.freeBase w (same.mem_iff.mpr hw)
  atomic b hb := (h.atomic b hb).imp id fun ⟨base, apart, offsets⟩ =>
    ⟨base, fun inside => apart (same.mem_iff.mpr inside), offsets⟩
  injective := h.injective
  covered w hw := (h.covered w hw).imp same.mem_iff.mp id

variable {b : Int}

theorem bound (h : Coherent P N M f free) (positive : 0 < P) (hb : PageBase P N b)
    (live : f b ≠ -1) :
    PageBase P M (f b) ∧ f b ∉ free ∧ ∀ i : Nat, i < P → f (b + i) = f b + i := by
  rcases h.atomic b hb with none | whole
  · exact absurd (by simpa using none 0 positive) live
  · exact whole

theorem unbound (h : Coherent P N M f free) (hb : PageBase P N b) (dead : f b = -1) :
    ∀ i : Nat, i < P → f (b + i) = -1 := by
  rcases h.atomic b hb with none | ⟨base, -, -⟩
  · exact none
  · have := base.nonneg
    omega

theorem nonneg_iff (h : Coherent P N M f free) (positive : 0 < P)
    (hb : PageBase P N b) : 0 ≤ f b ↔ f b ≠ -1 := by
  constructor
  · omega
  · exact fun live => (h.bound positive hb live).1.nonneg

theorem bind (h : Coherent P N M f free) (positive : 0 < P) {w : Int} {rest : List Int}
    (taken : free.Perm (w :: rest)) (hb : PageBase P N b) (dead : f b = -1) :
    Coherent P N M (bindPage P f b w) rest := by
  obtain ⟨fresh, restNodup⟩ := List.nodup_cons.mp (taken.nodup_iff.mp h.freeNodup)
  have inFree : w ∈ free := taken.mem_iff.mpr List.mem_cons_self
  have subset : ∀ {v}, v ∈ rest → v ∈ free := fun hv =>
    taken.mem_iff.mpr (List.mem_cons_of_mem _ hv)
  have atBase : bindPage P f b w b = w := by simpa using bindPage_self (f := f) positive
  have elsewhere : ∀ {b'}, PageBase P N b' → b' ≠ b → bindPage P f b w b' = f b' :=
    fun hb' other => by simpa using bindPage_other (f := f) (w := w) hb hb' other positive
  refine ⟨restNodup, fun v hv => h.freeBase v (subset hv), ?_, ?_, ?_⟩
  · intro b' hb'
    by_cases same : b' = b
    · subst same
      refine .inr ?_
      rw [atBase]
      exact ⟨h.freeBase w inFree, fresh, fun i below => bindPage_self below⟩
    · rcases h.atomic b' hb' with none | ⟨base, apart, offsets⟩
      · exact .inl fun i below => (bindPage_other hb hb' same below).trans (none i below)
      · rw [elsewhere hb' same]
        exact .inr ⟨base, fun hv => apart (subset hv), fun i below =>
          (bindPage_other hb hb' same below).trans (offsets i below)⟩
  · intro x y hx hy same live
    by_cases hxb : x = b <;> by_cases hyb : y = b
    · rw [hxb, hyb]
    · subst hxb
      rw [atBase, elsewhere hy hyb] at same
      have notFree := (h.bound positive hy (by rw [← same]; have := (h.freeBase w inFree).nonneg
                                               omega)).2.1
      exact absurd (same ▸ inFree) notFree
    · subst hyb
      rw [atBase, elsewhere hx hxb] at same
      have notFree := (h.bound positive hx (by rw [same]; have := (h.freeBase w inFree).nonneg
                                               omega)).2.1
      exact absurd (same ▸ inFree) notFree
    · rw [elsewhere hx hxb, elsewhere hy hyb] at same
      rw [elsewhere hx hxb] at live
      exact h.injective x y hx hy same live
  · intro v hv
    by_cases same : v = w
    · exact .inr ⟨b, hb, atBase.trans same.symm⟩
    · rcases h.covered v hv with free' | ⟨b', hb', at'⟩
      · rcases List.mem_cons.mp (taken.mem_iff.mp free') with rfl | later
        · exact absurd rfl same
        · exact .inl later
      · refine .inr ⟨b', hb', ?_⟩
        rw [elsewhere hb' (fun e => ?_), at']
        subst e
        have := hv.nonneg
        omega

theorem unbind (h : Coherent P N M f free) (positive : 0 < P) (hb : PageBase P N b)
    (live : f b ≠ -1) : Coherent P N M (fill f (pageSlots P b) (-1)) (f b :: free) := by
  obtain ⟨base, apart, -⟩ := h.bound positive hb live
  have atBase : fill f (pageSlots P b) (-1) b = -1 := by
    simpa using unbind_self (f := f) (b := b) positive
  have elsewhere : ∀ {b'}, PageBase P N b' → b' ≠ b → fill f (pageSlots P b) (-1) b' = f b' :=
    fun hb' other => by simpa using unbind_other (f := f) hb hb' other positive
  refine ⟨List.nodup_cons.mpr ⟨apart, h.freeNodup⟩, ?_, ?_, ?_, ?_⟩
  · intro v hv
    rcases List.mem_cons.mp hv with rfl | later
    · exact base
    · exact h.freeBase v later
  · intro b' hb'
    by_cases same : b' = b
    · subst same
      exact .inl fun i below => unbind_self below
    · rcases h.atomic b' hb' with none | ⟨base', apart', offsets⟩
      · exact .inl fun i below => (unbind_other hb hb' same below).trans (none i below)
      · rw [elsewhere hb' same]
        refine .inr ⟨base', fun hv => ?_, fun i below =>
          (unbind_other hb hb' same below).trans (offsets i below)⟩
        rcases List.mem_cons.mp hv with e | later
        · exact same (h.injective b' b hb' hb e (e ▸ live))
        · exact apart' later
  · intro x y hx hy same live'
    by_cases hxb : x = b
    · subst hxb
      exact absurd atBase live'
    · by_cases hyb : y = b
      · subst hyb
        exact absurd (same.trans atBase) live'
      · rw [elsewhere hx hxb, elsewhere hy hyb] at same
        rw [elsewhere hx hxb] at live'
        exact h.injective x y hx hy same live'
  · intro v hv
    rcases h.covered v hv with free' | ⟨b', hb', at'⟩
    · exact .inl (List.mem_cons_of_mem _ free')
    · by_cases same : b' = b
      · subst same
        exact .inl (at' ▸ List.mem_cons_self)
      · exact .inr ⟨b', hb', (elsewhere hb' same).trans at'⟩

theorem unbind_dead (h : Coherent P N M f free) (hb : PageBase P N b)
    (dead : f b = -1) : fill f (pageSlots P b) (-1) = f := by
  funext x
  by_cases inside : x ∈ pageSlots P b
  · obtain ⟨low, high⟩ := mem_pageSlots.mp inside
    have := h.unbound hb dead (x - b).toNat (by omega)
    rw [fill_of_mem inside, ← this]
    congr 1
    omega
  · exact fill_of_not_mem inside

theorem bindAll (positive : 0 < P) {rest : List Int} :
    ∀ {bs ws : List Int} {f : Int → Int} {free : List Int}, Coherent P N M f free →
      free.Perm (ws ++ rest) → bs.length = ws.length → bs.Nodup →
      (∀ b ∈ bs, PageBase P N b ∧ f b = -1) →
      Coherent P N M (scatter f (bs.flatMap (pageSlots P)) (ws.flatMap (pageSlots P))) rest := by
  intro bs
  induction bs with
  | nil =>
    intro ws f free h taken same _ _
    obtain rfl : ws = [] := List.length_eq_zero_iff.mp same.symm
    simpa using h.perm taken
  | cons b bs ih =>
    intro ws f free h taken same distinct ready
    cases ws with
    | nil => simp at same
    | cons w ws =>
      obtain ⟨fresh, distinct⟩ := List.nodup_cons.mp distinct
      obtain ⟨hb, dead⟩ := ready b List.mem_cons_self
      rw [List.flatMap_cons, List.flatMap_cons, scatter_append (by simp), scatter_pageSlots]
      refine ih (h.bind positive taken hb dead) (List.Perm.refl _) (by simpa using same) distinct ?_
      intro b' hb'
      obtain ⟨base, dead'⟩ := ready b' (List.mem_cons_of_mem _ hb')
      have other : b' ≠ b := fun e => fresh (e ▸ hb')
      refine ⟨base, ?_⟩
      simpa [dead'] using bindPage_other (f := f) (w := w) hb base other positive

theorem unbindAll (positive : 0 < P) :
    ∀ {bs : List Int} {f : Int → Int} {free : List Int}, Coherent P N M f free → bs.Nodup →
      (∀ b ∈ bs, PageBase P N b) →
      Coherent P N M (fill f (bs.flatMap (pageSlots P)) (-1))
        (free ++ (bs.map f).filter fun w => 0 ≤ w) := by
  intro bs
  induction bs with
  | nil =>
    intro f free h _ _
    have nothing : fill f [] (-1) = f := funext fun x => fill_of_not_mem (List.not_mem_nil)
    simpa [nothing] using h
  | cons b bs ih =>
    intro f free h distinct base
    obtain ⟨fresh, distinct⟩ := List.nodup_cons.mp distinct
    have hb := base b List.mem_cons_self
    have later : ∀ b' ∈ bs, PageBase P N b' := fun b' hb' => base b' (List.mem_cons_of_mem _ hb')
    have unchanged : bs.map (fill f (pageSlots P b) (-1)) = bs.map f :=
      List.map_congr_left fun b' hb' => by
        have other : b' ≠ b := fun e => fresh (e ▸ hb')
        simpa using unbind_other (f := f) hb (later b' hb') other positive
    rw [List.flatMap_cons, fill_append, List.map_cons]
    by_cases dead : f b = -1
    · rw [h.unbind_dead hb dead, List.filter_cons_of_neg (by simp [dead])]
      exact ih h distinct later
    · have keep : (0 : Int) ≤ f b := (h.nonneg_iff positive hb).mpr dead
      rw [List.filter_cons_of_pos (by simpa using keep), ← unchanged]
      refine (ih (h.unbind positive hb dead) distinct later).perm ?_
      rw [List.cons_append]
      exact List.perm_middle.symm

/-- Re-homing one page under an unbound one keeps the mapping coherent and the free list as it
was. -/
theorem rehome (h : Coherent P N M f free) (positive : 0 < P) {d s : Int} (hd : PageBase P N d)
    (hs : PageBase P N s) (other : d ≠ s) (dead : f d = -1) :
    Coherent P N M
      (fill (scatter f (pageSlots P d) ((pageSlots P s).map f)) (pageSlots P s) (-1)) free := by
  have apart : (pageSlots P d).Disjoint (pageSlots P s) := fun x hx hx' =>
    other (hd.eq_of_shared hs (mem_pageSlots.mp hx) (mem_pageSlots.mp hx'))
  by_cases source : f s = -1
  · have nothing : scatter f (pageSlots P d) ((pageSlots P s).map f) = f := by
      refine scatter_self fun p hp => ?_
      obtain ⟨i, hi, rfl⟩ := List.mem_iff_getElem.mp hp
      simp only [List.length_zip, pageSlots_length, List.length_map, min_self] at hi
      simp only [List.getElem_zip, List.getElem_map, pageSlots, List.getElem_range]
      rw [h.unbound hd dead i hi, h.unbound hs source i hi]
    rw [nothing, h.unbind_dead hs source]
    exact h
  · have offsets := (h.bound positive hs source).2.2
    have image : (pageSlots P s).map f = pageSlots P (f s) := by
      simp only [pageSlots, List.map_map]
      exact List.map_congr_left fun i hi => offsets i (List.mem_range.mp hi)
    have stillDead : fill f (pageSlots P s) (-1) d = -1 := by
      simpa [dead] using unbind_other (f := f) hs hd other positive
    rw [fill_scatter_comm apart, image, scatter_pageSlots]
    exact (h.unbind positive hs source).bind positive (List.Perm.refl _) hd stillDead

theorem rehomeAll (positive : 0 < P) :
    ∀ {ds ss : List Int} {f : Int → Int}, Coherent P N M f free → ds.length = ss.length →
      (ds ++ ss).Nodup → (∀ b ∈ ds ++ ss, PageBase P N b) → (∀ d ∈ ds, f d = -1) →
      Coherent P N M (fill (scatter f (ds.flatMap (pageSlots P))
        ((ss.flatMap (pageSlots P)).map f)) (ss.flatMap (pageSlots P)) (-1)) free := by
  intro ds
  induction ds with
  | nil =>
    intro ss f h same _ _ _
    obtain rfl : ss = [] := List.length_eq_zero_iff.mp same.symm
    have nothing : fill f [] (-1) = f := funext fun x => fill_of_not_mem (List.not_mem_nil)
    simpa [nothing] using h
  | cons d ds ih =>
    intro ss f h same distinct base dead
    cases ss with
    | nil => simp at same
    | cons s ss =>
      have hd := base d (by simp)
      have hs := base s (by simp)
      have other : d ≠ s := by
        rintro rfl
        simp at distinct
      have dFresh : d ∉ ds ∧ d ∉ ss := by simpa [not_or, other] using (List.nodup_cons.mp distinct).1
      have rest : (ds ++ ss).Nodup ∧ s ∉ ds ∧ s ∉ ss := by
        have := (List.nodup_middle.mp (List.nodup_cons.mp distinct).2)
        simpa [and_comm] using List.nodup_cons.mp this
      have pages : ∀ {b}, b ∈ ds ++ ss → PageBase P N b := fun hb => base _ (by
        simp only [List.mem_append, List.mem_cons] at hb ⊢
        tauto)
      have apart : (ds.flatMap (pageSlots P)).Disjoint (pageSlots P s) := by
        intro x hx hx'
        obtain ⟨b, hb, hxb⟩ := List.mem_flatMap.mp hx
        have := (pages (List.mem_append_left _ hb)).eq_of_shared hs (mem_pageSlots.mp hxb)
          (mem_pageSlots.mp hx')
        exact rest.2.1 (this ▸ hb)
      -- the pages still to come are neither `d` nor `s`, so the first move leaves them alone
      have kept : ∀ b ∈ ds ++ ss, ∀ i : Nat, i < P →
          fill (scatter f (pageSlots P d) ((pageSlots P s).map f)) (pageSlots P s) (-1) (b + i) =
            f (b + i) := by
        intro b hb i below
        have notS : b ≠ s := by
          rintro rfl
          rcases List.mem_append.mp hb with hb | hb
          · exact rest.2.1 hb
          · exact rest.2.2 hb
        have notD : b ≠ d := by
          rintro rfl
          rcases List.mem_append.mp hb with hb | hb
          · exact dFresh.1 hb
          · exact dFresh.2 hb
        rw [unbind_other hs (pages hb) notS below]
        refine scatter_of_not_mem fun inside => notD ?_
        exact (hd.eq_of_shared (pages hb) (mem_pageSlots.mp inside) ⟨by omega, by omega⟩).symm
      have image : (ss.flatMap (pageSlots P)).map f = (ss.flatMap (pageSlots P)).map
          (fill (scatter f (pageSlots P d) ((pageSlots P s).map f)) (pageSlots P s) (-1)) := by
        refine List.map_congr_left fun x hx => ?_
        obtain ⟨b, hb, hxb⟩ := List.mem_flatMap.mp hx
        obtain ⟨low, high⟩ := mem_pageSlots.mp hxb
        have := kept b (List.mem_append_right _ hb) (x - b).toNat (by omega)
        rw [show b + ((x - b).toNat : Int) = x by omega] at this
        exact this.symm
      rw [List.flatMap_cons, List.flatMap_cons, List.map_append, scatter_append (by simp),
        fill_append, fill_scatter_comm apart, image]
      refine ih (h.rehome positive hd hs other (dead d List.mem_cons_self)) (by simpa using same)
        rest.1 (fun b hb => pages hb) fun b hb => ?_
      have := kept b (List.mem_append_left _ hb) 0 positive
      simp only [Nat.cast_zero, add_zero] at this
      rw [this]
      exact dead b (List.mem_cons_of_mem _ hb)

end Coherent

end FreeSwarm.KvCache
