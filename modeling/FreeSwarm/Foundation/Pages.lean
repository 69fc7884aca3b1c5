import FreeSwarm.Foundation.PathTreeOps

/-!
# Pages of slots

A page is named by its first slot. A list of slots is paged when it lists whole pages one after the
other; its first slots are the pages.
-/

namespace FreeSwarm.Foundation

/-- The number of pages that some tokens need. -/
def divCeil (n page : Nat) : Nat := (n + page - 1) / page

/-- Some tokens rounded up to whole pages. -/
def pageCeil (page n : Nat) : Nat := divCeil n page * page

def toTokens (page : Nat) (pages : List Int) : List Int :=
  pages.flatMap fun p => (List.range page).map fun i : Nat => p + (i : Int)

/-- Every element that many places after the last one, when some are still to be skipped. -/
def strideFrom {α : Type} (step : Nat) : Nat → List α → List α
  | _, [] => []
  | 0, x :: l => x :: strideFrom step (step - 1) l
  | skip + 1, _ :: l => strideFrom step skip l

/-- The first element and every one that many places after the last. -/
def stride {α : Type} (step : Nat) (l : List α) : List α := strideFrom step 0 l

variable {page : Nat}

/-! ## Rounding -/

theorem le_pageCeil (positive : 0 < page) (n : Nat) : n ≤ pageCeil page n := by
  have remainder := Nat.mod_lt (n + page - 1) positive
  have division := Nat.div_add_mod (n + page - 1) page
  rw [pageCeil, divCeil, Nat.mul_comm]
  omega

theorem dvd_pageCeil (page n : Nat) : page ∣ pageCeil page n := Nat.dvd_mul_left page _

theorem pageCeil_lt (positive : 0 < page) (n : Nat) : pageCeil page n < n + page := by
  have division := Nat.div_mul_le_self (n + page - 1) page
  rw [pageCeil, divCeil]
  omega

theorem divCeil_mono {n m : Nat} (page : Nat) (le : n ≤ m) : divCeil n page ≤ divCeil m page :=
  Nat.div_le_div_right (Nat.sub_le_sub_right (Nat.add_le_add_right le page) 1)

theorem pageCeil_mono {n m : Nat} (page : Nat) (le : n ≤ m) : pageCeil page n ≤ pageCeil page m :=
  Nat.mul_le_mul_right page (divCeil_mono page le)

theorem pageCeil_eq_self (positive : 0 < page) {n : Nat} (whole : page ∣ n) :
    pageCeil page n = n := by
  obtain ⟨k, rfl⟩ := whole
  rw [pageCeil, divCeil, Nat.add_sub_assoc positive, Nat.mul_add_div positive,
    Nat.div_eq_of_lt (by omega), Nat.add_zero, Nat.mul_comm]

theorem pageCeil_le (positive : 0 < page) {n k : Nat} (whole : page ∣ k) (enough : n ≤ k) :
    pageCeil page n ≤ k :=
  (pageCeil_mono page enough).trans_eq (pageCeil_eq_self positive whole)

/-! ## Slots of pages -/

@[simp] theorem toTokens_nil : toTokens page [] = [] := rfl

@[simp] theorem toTokens_cons (p : Int) (pages : List Int) : toTokens page (p :: pages) =
    ((List.range page).map fun i : Nat => p + (i : Int)) ++ toTokens page pages := rfl

@[simp] theorem toTokens_append (a b : List Int) :
    toTokens page (a ++ b) = toTokens page a ++ toTokens page b := List.flatMap_append

variable (pages : List Int)

@[simp] theorem length_toTokens :
    (toTokens page pages).length = pages.length * page := by
  induction pages with
  | nil => simp
  | cons p pages ih => simp [ih, Nat.succ_mul, Nat.add_comm]

theorem take_toTokens (k : Nat) :
    (toTokens page pages).take (k * page) = toTokens page (pages.take k) := by
  induction pages generalizing k with
  | nil => simp
  | cons p pages ih =>
    cases k with
    | zero => simp
    | succ k =>
      rw [List.take_succ_cons, toTokens_cons, toTokens_cons, ← ih, Nat.succ_mul, Nat.add_comm,
        List.take_append]
      simp

theorem drop_toTokens (k : Nat) :
    (toTokens page pages).drop (k * page) = toTokens page (pages.drop k) := by
  induction pages generalizing k with
  | nil => simp
  | cons p pages ih =>
    cases k with
    | zero => simp
    | succ k =>
      rw [List.drop_succ_cons, toTokens_cons, ← ih, Nat.succ_mul, Nat.add_comm, List.drop_append]
      simp

/-! ## First slots -/

theorem strideFrom_eq {α : Type} (step skip : Nat) (l : List α) :
    strideFrom step skip l = stride step (l.drop skip) := by
  induction skip generalizing l with
  | zero => rw [stride, List.drop_zero]
  | succ skip ih =>
    cases l with
    | nil => rw [strideFrom, List.drop_nil, stride, strideFrom]
    | cons x l => rw [strideFrom, ih, List.drop_succ_cons]

theorem stride_toTokens (positive : 0 < page) (pages : List Int) :
    stride page (toTokens page pages) = pages := by
  obtain ⟨page, rfl⟩ := Nat.exists_eq_succ_of_ne_zero positive.ne'
  induction pages with
  | nil => rfl
  | cons p pages ih =>
    have spent : (((List.range page).map Nat.succ).map fun i : Nat => p + (i : Int)).drop page =
        [] := List.drop_eq_nil_of_le (by simp)
    rw [toTokens_cons, List.range_succ_eq_map, List.map_cons, List.cons_append, stride, strideFrom,
      strideFrom_eq, Nat.succ_sub_one, List.drop_append, spent, List.nil_append, List.length_map,
      List.length_map, List.length_range, Nat.sub_self, List.drop_zero, ih]
    simp

/-! ## Paged lists -/

def Paged (page : Nat) (slots : List Int) : Prop := ∃ pages, slots = toTokens page pages

namespace Paged

variable {slots rest : List Int}

theorem nil : Paged page [] := ⟨[], rfl⟩

theorem eq (h : Paged page slots) (positive : 0 < page) :
    slots = toTokens page (stride page slots) := by
  obtain ⟨pages, rfl⟩ := h
  rw [stride_toTokens positive]

theorem length_eq (h : Paged page slots) (positive : 0 < page) :
    slots.length = (stride page slots).length * page := by
  obtain ⟨pages, rfl⟩ := h
  rw [stride_toTokens positive, length_toTokens]

theorem append (h : Paged page slots) (h' : Paged page rest) : Paged page (slots ++ rest) := by
  obtain ⟨pages, rfl⟩ := h
  obtain ⟨more, rfl⟩ := h'
  exact ⟨pages ++ more, (toTokens_append pages more).symm⟩

theorem stride_append (h : Paged page slots) (h' : Paged page rest) (positive : 0 < page) :
    stride page (slots ++ rest) = stride page slots ++ stride page rest := by
  obtain ⟨pages, rfl⟩ := h
  obtain ⟨more, rfl⟩ := h'
  rw [← toTokens_append, stride_toTokens positive, stride_toTokens positive,
    stride_toTokens positive]

theorem take (h : Paged page slots) {k : Nat} (whole : page ∣ k) : Paged page (slots.take k) := by
  obtain ⟨pages, rfl⟩ := h
  obtain ⟨k, rfl⟩ := whole
  exact ⟨pages.take k, by rw [Nat.mul_comm, take_toTokens]⟩

theorem drop (h : Paged page slots) {k : Nat} (whole : page ∣ k) : Paged page (slots.drop k) := by
  obtain ⟨pages, rfl⟩ := h
  obtain ⟨k, rfl⟩ := whole
  exact ⟨pages.drop k, by rw [Nat.mul_comm, drop_toTokens]⟩

theorem of_flatMap {α : Type} {l : List α} {f : α → List Int}
    (whole : ∀ x ∈ l, page ∣ (f x).length) (h : Paged page (l.flatMap f)) :
    ∀ x ∈ l, Paged page (f x) := by
  induction l with
  | nil => simp
  | cons y l ih =>
    rw [List.flatMap_cons] at h
    have front := h.take (whole y List.mem_cons_self)
    have back := h.drop (whole y List.mem_cons_self)
    rw [List.take_left] at front
    rw [List.drop_left] at back
    intro x mem
    rcases List.mem_cons.mp mem with rfl | mem
    · exact front
    · exact ih (fun z hz => whole z (List.mem_cons_of_mem _ hz)) back x mem

theorem flatMap {α : Type} {l : List α} {f : α → List Int} (positive : 0 < page)
    (each : ∀ x ∈ l, Paged page (f x)) :
    Paged page (l.flatMap f) ∧ stride page (l.flatMap f) = l.flatMap fun x => stride page (f x) := by
  induction l with
  | nil => exact ⟨Paged.nil, rfl⟩
  | cons y l ih =>
    obtain ⟨paged, pages⟩ := ih fun x mem => each x (List.mem_cons_of_mem _ mem)
    have first := each y List.mem_cons_self
    rw [List.flatMap_cons, List.flatMap_cons, first.stride_append paged positive, pages]
    exact ⟨first.append paged, rfl⟩

end Paged

end FreeSwarm.Foundation
