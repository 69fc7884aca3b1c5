import FreeSwarm.Foundation.PathTreeOps

/-!
# Walking down a compressed tree

A walk reads a key from the root down, a whole number of pages at a time. It ends when no child
starts with the next page, when it stops inside an edge, or when less than a page is left. In each
case no path in the tree goes a page further along the key, which is what `Deepest` says.
-/

namespace FreeSwarm.Foundation.PathTree

variable {K D : Type*} [DecidableEq K] {page : Nat} {nodes : List (Node K D)}
  {path : Nat → List K}

/-! ## Page arithmetic -/

theorem alignDown_le (n page : Nat) : alignDown n page ≤ n := Nat.div_mul_le_self n page

theorem dvd_alignDown (n page : Nat) : page ∣ alignDown n page := Nat.dvd_mul_left page (n / page)

theorem lt_alignDown_add (positive : 0 < page) (n : Nat) : n < alignDown n page + page := by
  have divided := Nat.div_add_mod' n page
  have rest := Nat.mod_lt n positive
  unfold alignDown
  omega

theorem le_alignDown {n k : Nat} (whole : page ∣ k) (below : k ≤ n) : k ≤ alignDown n page := by
  obtain ⟨q, rfl⟩ := whole
  rcases Nat.eq_zero_or_pos page with rfl | positive
  · simp
  · have quotient : q ≤ n / page := (Nat.le_div_iff_mul_le positive).mpr (by rwa [Nat.mul_comm])
    rw [alignDown, Nat.mul_comm page q]
    exact Nat.mul_le_mul_right page quotient

/-! ## Common prefixes -/

theorem commonLen_le_left (a b : List K) : commonLen a b ≤ a.length := by
  induction a generalizing b with
  | nil => simp [commonLen]
  | cons x a ih =>
    cases b with
    | nil => simp [commonLen]
    | cons y b =>
      have rest := ih b
      simp only [commonLen, List.length_cons]
      split <;> omega

theorem take_commonLen (a b : List K) : a.take (commonLen a b) = b.take (commonLen a b) := by
  induction a generalizing b with
  | nil => simp [commonLen]
  | cons x a ih =>
    cases b with
    | nil => simp [commonLen]
    | cons y b =>
      simp only [commonLen]
      split
      · rename_i same
        rw [List.take_succ_cons, List.take_succ_cons, same, ih b]
      · rfl

theorem commonLen_le_right (a b : List K) : commonLen a b ≤ b.length := by
  have lengths := congrArg List.length (take_commonLen a b)
  have left := commonLen_le_left a b
  simp only [List.length_take] at lengths
  omega

theorem le_commonLen {a b : List K} {k : Nat} (left : k ≤ a.length) (right : k ≤ b.length)
    (same : a.take k = b.take k) : k ≤ commonLen a b := by
  induction k generalizing a b with
  | zero => exact Nat.zero_le _
  | succ k ih =>
    cases a with
    | nil => simp at left
    | cons x a =>
      cases b with
      | nil => simp at right
      | cons y b =>
        rw [List.take_succ_cons, List.take_succ_cons, List.cons.injEq] at same
        rw [commonLen, if_pos same.1]
        exact Nat.succ_le_succ (ih (by simpa using left) (by simpa using right) same.2)

/-- How far a key follows an edge, in whole pages. -/
def matchLen (page : Nat) (edge rest : List K) : Nat := alignDown (commonLen edge rest) page

/-- The match stays inside the edge and the key, in whole pages, and is as long as that allows. -/
structure Matches (page : Nat) (edge rest : List K) (len : Nat) : Prop where
  page_le : page ≤ len
  le_edge : len ≤ edge.length
  le_rest : len ≤ rest.length
  whole : page ∣ len
  same : edge.take len = rest.take len
  differ : len + page ≤ edge.length → len + page ≤ rest.length →
    edge.take (len + page) ≠ rest.take (len + page)

theorem childAt_some {u : Nat} {rest : List K} {c : Node K D}
    (found : childAt page nodes u rest = some c) :
    c ∈ nodes ∧ c.parent = u ∧ c.key.take page = rest.take page := by
  have test := List.find?_some found
  simp only [Bool.and_eq_true, decide_eq_true_eq] at test
  exact ⟨List.mem_of_find?_eq_some found, test.1, test.2⟩

theorem Shaped.matches_child (h : Shaped page nodes path) {u : Nat} {rest : List K}
    {c : Node K D} (found : childAt page nodes u rest = some c) :
    Matches page c.key rest (matchLen page c.key rest) := by
  obtain ⟨mem, -, first⟩ := childAt_some found
  have inside := h.page_le mem
  have long : page ≤ rest.length := by
    have lengths := congrArg List.length first
    simp only [List.length_take] at lengths
    omega
  refine { page_le := le_alignDown dvd_rfl (le_commonLen inside long first),
           le_edge := (alignDown_le _ _).trans (commonLen_le_left _ _),
           le_rest := (alignDown_le _ _).trans (commonLen_le_right _ _),
           whole := dvd_alignDown _ _, same := ?_, differ := ?_ }
  · have short : matchLen page c.key rest ≤ commonLen c.key rest := alignDown_le _ _
    have common := congrArg (List.take (matchLen page c.key rest)) (take_commonLen c.key rest)
    rwa [List.take_take, List.take_take, Nat.min_eq_left short] at common
  · intro left right same
    have further : matchLen page c.key rest + page ≤ matchLen page c.key rest :=
      le_alignDown (Nat.dvd_add (dvd_alignDown _ _) dvd_rfl) (le_commonLen left right same)
    have positive := h.positive
    omega

/-! ## The end of a walk -/

/-- No path in the tree goes a page further along the key. -/
def Deepest (page : Nat) (nodes : List (Node K D)) (path : Nat → List K) (ids : List K)
    (pos : Nat) : Prop :=
  ∀ v, Live nodes v → pos + page ≤ ids.length → ¬ ids.take (pos + page) <+: path v

variable {ids : List K}

omit [DecidableEq K] in
theorem deepest_of_short {pos : Nat} (short : ids.length < pos + page) :
    Deepest page nodes path ids pos :=
  fun _ _ long => absurd long (by omega)

theorem Shaped.deepest_of_missing (h : Shaped page nodes path) {u : Nat}
    (live : Live nodes u) (here : path u <+: ids)
    (missing : childAt page nodes u (ids.drop (path u).length) = none) :
    Deepest page nodes path ids (path u).length := by
  intro v hv long
  obtain ⟨rest, rfl⟩ := here
  rw [List.drop_left] at missing
  rw [List.take_length_add_append]
  simp only [List.length_append] at long
  have short : (rest.take page).length = page := by
    rw [List.length_take, Nat.min_eq_left (by omega)]
  have positive := h.positive
  induction hlen : (path v).length using Nat.strong_induction_on generalizing v with
  | _ len ih =>
    intro enters
    rcases hv with rfl | ⟨m, hm, rfl⟩
    · have empty := enters.length_le
      rw [h.root] at empty
      simp only [List.length_append, List.length_nil, short] at empty
      omega
    · have above : path u <+: path m.id := (List.prefix_append _ _).trans enters
      have lengths := enters.length_le
      have longer := h.length_path hm
      have segment := h.page_le hm
      simp only [List.length_append, short] at lengths
      have other : u ≠ m.id := by
        rintro rfl
        omega
      have upper := h.prefix_parent hm live above other
      by_cases same : u = m.parent
      · subst same
        have first : rest.take page <+: m.key := by
          rw [h.path_eq m hm] at enters
          exact (List.prefix_append_right_inj _).mp enters
        have pages : m.key.take page = rest.take page := by
          have cut := List.prefix_iff_eq_take.mp first
          rw [short] at cut
          exact cut.symm
        have absent := List.find?_eq_none.mp missing m hm
        simp [pages] at absent
      · have strict : (path u).length < (path m.parent).length := by
          refine lt_of_le_of_ne upper.length_le fun eq => same ?_
          exact h.path_injective live (h.parent m hm) (upper.eq_of_length eq)
        have gap := h.add_page_le live (h.parent m hm) strict
        have lower : path m.parent <+: path m.id := h.path_eq m hm ▸ List.prefix_append _ _
        refine ih _ (by omega) m.parent (h.parent m hm) rfl ?_
        refine List.prefix_of_prefix_length_le enters lower ?_
        simp only [List.length_append, short]
        exact gap

omit [DecidableEq K] in
theorem Shaped.deepest_of_inside (h : Shaped page nodes path) {c : Node K D} {ids rest : List K}
    {len : Nat} (mem : c ∈ nodes) (key : ids = path c.parent ++ rest)
    (fits : Matches page c.key rest len) (inside : len < c.key.length) :
    Deepest page nodes path ids ((path c.parent).length + len) := by
  intro v hv long enters
  subst key
  rw [Nat.add_assoc, List.take_length_add_append] at enters
  simp only [List.length_append] at long
  have gap : len + page ≤ c.key.length := by
    have room := Nat.le_of_dvd (by omega) (Nat.dvd_sub (h.aligned c mem) fits.whole)
    omega
  have first : path c.parent ++ c.key.take page <+: path v := by
    have pages : c.key.take page = rest.take page := by
      have cut := congrArg (List.take page) fits.same
      rwa [List.take_take, List.take_take, Nat.min_eq_left fits.page_le] at cut
    rw [pages]
    refine ((List.prefix_append_right_inj _).mpr ?_).trans enters
    exact List.take_prefix_take_left (Nat.le_add_left page len)
  have through := h.edge mem hv first
  rw [h.path_eq c mem] at through
  have both : rest.take (len + page) <+: c.key := by
    refine (List.prefix_append_right_inj _).mp
      (List.prefix_of_prefix_length_le enters through ?_)
    simp only [List.length_append, List.length_take]
    omega
  have cut := List.prefix_iff_eq_take.mp both
  rw [List.length_take, Nat.min_eq_left (by omega)] at cut
  exact fits.differ gap (by omega) cut.symm

omit [DecidableEq K] in
theorem Shaped.length_le_of_deepest (h : Shaped page nodes path) {pos v : Nat}
    (deepest : Deepest page nodes path ids pos) (whole : page ∣ pos) (live : Live nodes v)
    (along : path v <+: ids) : (path v).length ≤ pos := by
  by_contra beyond
  have room := Nat.le_of_dvd (by omega) (Nat.dvd_sub (h.dvd_length_path live) whole)
  refine deepest v live (by have := along.length_le; omega) ?_
  rw [List.prefix_iff_eq_take.mp along]
  exact List.take_prefix_take_left (by omega)

omit [DecidableEq K] in
theorem Shaped.deepest_split (h : Shaped page nodes path) {n : Node K D}
    {cut pos fresh : Nat} {head tail : D → D} (mem : n ∈ nodes) (new : ¬ Live nodes fresh)
    (deepest : Deepest page nodes path ids pos) :
    Deepest page (PathTree.split nodes n.id cut fresh head tail)
      (Function.update path fresh (path n.parent ++ n.key.take cut)) ids pos := by
  intro v hv long enters
  rcases (live_split mem).mp hv with hv | rfl
  · rw [Function.update_of_ne (hv.ne_of_new new)] at enters
    exact deepest v hv long enters
  · rw [Function.update_self] at enters
    refine deepest n.id (live_of_mem mem) long (enters.trans ?_)
    rw [h.path_eq n mem]
    exact (List.prefix_append_right_inj _).mpr (List.take_prefix _ _)

end FreeSwarm.Foundation.PathTree
