import FreeSwarm.Foundation.Machine
import FreeSwarm.Foundation.PathTree
import Mathlib.Algebra.BigOperators.Group.List.Basic
import Mathlib.Algebra.GroupWithZero.Nat
import Mathlib.Algebra.Ring.Int.Defs
import Mathlib.Logic.Function.Basic

/-!
# Operations on compressed trees

Reading a child by the first page of a key, changing what a node carries, splitting an edge, adding
a leaf and taking one off. Each keeps the tree shaped, and each changes a sum over the nodes by the
nodes it touches.
-/

namespace FreeSwarm.Foundation.PathTree

variable {K D : Type*} {page : Nat} {nodes : List (Node K D)} {path : Nat → List K}

/-! ## The operations -/

def childAt [DecidableEq K] (page : Nat) (nodes : List (Node K D)) (u : Nat) (ids : List K) :
    Option (Node K D) :=
  nodes.find? fun n => decide (n.parent = u) && decide (n.key.take page = ids.take page)

def isLeaf (nodes : List (Node K D)) (u : Nat) : Bool := nodes.all fun n => decide (n.parent ≠ u)

/-- Change what the nodes carry, each by itself. -/
def mapData (nodes : List (Node K D)) (f : Node K D → D) : List (Node K D) :=
  nodes.map fun n => { n with data := f n }

def modifyAll (nodes : List (Node K D)) (ids : List Nat) (f : D → D) : List (Node K D) :=
  mapData nodes fun n => if n.id ∈ ids then f n.data else n.data

def modify (nodes : List (Node K D)) (id : Nat) (f : D → D) : List (Node K D) :=
  nodes.map fun n => if n.id = id then { n with data := f n.data } else n

/-- Cut the edge of a node in two. The upper part goes to a new node, the lower part stays with the
node and hangs below it. -/
def split (nodes : List (Node K D)) (id pos fresh : Nat) (head tail : D → D) : List (Node K D) :=
  nodes.flatMap fun n =>
    if n.id = id then
      [{ id := fresh, parent := n.parent, key := n.key.take pos, data := head n.data },
        { id := n.id, parent := fresh, key := n.key.drop pos, data := tail n.data }]
    else [n]

def unlink (nodes : List (Node K D)) (id : Nat) : List (Node K D) :=
  nodes.filter fun n => decide (n.id ≠ id)

/-- The length of the longest common prefix of two keys. -/
def commonLen [DecidableEq K] : List K → List K → Nat
  | a :: as, b :: bs => if a = b then commonLen as bs + 1 else 0
  | _, _ => 0

/-- The largest multiple of a page that is not above a number. -/
def alignDown (n page : Nat) : Nat := n / page * page

def total (weight : Node K D → Int) (nodes : List (Node K D)) : Int := (nodes.map weight).sum

/-! ## Where a node stands in the list -/

theorem Shaped.exists_around (h : Shaped page nodes path) {n : Node K D} (mem : n ∈ nodes) :
    ∃ left right, nodes = left ++ n :: right ∧ (∀ m ∈ left, m.id ≠ n.id) ∧
      ∀ m ∈ right, m.id ≠ n.id := by
  obtain ⟨left, right, rfl⟩ := List.append_of_mem mem
  have distinct := h.distinct
  rw [List.map_append, List.map_cons, List.nodup_middle, List.nodup_cons, List.mem_append,
    not_or] at distinct
  exact ⟨left, right, rfl, fun m hm same => distinct.1.1 (same ▸ List.mem_map_of_mem hm),
    fun m hm same => distinct.1.2 (same ▸ List.mem_map_of_mem hm)⟩

section around
variable {left right : List (Node K D)} {n : Node K D} (hleft : ∀ m ∈ left, m.id ≠ n.id)
  (hright : ∀ m ∈ right, m.id ≠ n.id)
include hleft hright

theorem modify_around (f : D → D) : modify (left ++ n :: right) n.id f =
    left ++ { n with data := f n.data } :: right := by
  simp only [modify, List.map_append, List.map_cons, if_true]
  rw [List.map_congr_left fun m hm => if_neg (hleft m hm),
    List.map_congr_left (l := right) fun m hm => if_neg (hright m hm)]
  simp

theorem split_around (pos fresh : Nat) (head tail : D → D) :
    split (left ++ n :: right) n.id pos fresh head tail =
      left ++ { id := fresh, parent := n.parent, key := n.key.take pos, data := head n.data } ::
        { id := n.id, parent := fresh, key := n.key.drop pos, data := tail n.data } :: right := by
  have keep : ∀ l : List (Node K D), (∀ m ∈ l, m.id ≠ n.id) →
      split l n.id pos fresh head tail = l := by
    intro l other
    induction l with
    | nil => rfl
    | cons m l ih =>
      have rest := ih fun m' hm' => other m' (by simp [hm'])
      simp only [split] at rest
      simp [split, other m (by simp), rest]
  simp only [split] at keep
  simp [split, keep left hleft, keep right hright]

theorem unlink_around : unlink (left ++ n :: right) n.id = left ++ right := by
  have keep : ∀ l : List (Node K D), (∀ m ∈ l, m.id ≠ n.id) → unlink l n.id = l := fun l other =>
    List.filter_eq_self.mpr fun m hm => by simpa using other m hm
  rw [unlink, List.filter_append, List.filter_cons_of_neg (by simp)]
  exact congrArg₂ (· ++ ·) (keep left hleft) (keep right hright)

end around

/-! ## Membership -/

variable {id : Nat}

variable {x : Node K D}

theorem mem_modify {f : D → D} : x ∈ modify nodes id f ↔
    (x ∈ nodes ∧ x.id ≠ id) ∨ ∃ n ∈ nodes, n.id = id ∧ x = { n with data := f n.data } := by
  simp only [modify, List.mem_map]
  constructor
  · rintro ⟨n, mem, rfl⟩
    by_cases same : n.id = id
    · exact .inr ⟨n, mem, same, if_pos same⟩
    · rw [if_neg same]
      exact .inl ⟨mem, same⟩
  · rintro (⟨mem, other⟩ | ⟨n, mem, same, rfl⟩)
    · exact ⟨x, mem, if_neg other⟩
    · exact ⟨n, mem, if_pos same⟩

theorem mem_split {id pos fresh : Nat} {head tail : D → D} :
    x ∈ split nodes id pos fresh head tail ↔ (x ∈ nodes ∧ x.id ≠ id) ∨ ∃ n ∈ nodes, n.id = id ∧
      (x = { id := fresh, parent := n.parent, key := n.key.take pos, data := head n.data } ∨
        x = { id := n.id, parent := fresh, key := n.key.drop pos, data := tail n.data }) := by
  simp only [split, List.mem_flatMap]
  constructor
  · rintro ⟨n, mem, inside⟩
    by_cases same : n.id = id
    · rw [if_pos same] at inside
      exact .inr ⟨n, mem, same, by simpa using inside⟩
    · rw [if_neg same, List.mem_singleton] at inside
      subst inside
      exact .inl ⟨mem, same⟩
  · rintro (⟨mem, other⟩ | ⟨n, mem, same, inside⟩)
    · exact ⟨x, mem, by simp [other]⟩
    · exact ⟨n, mem, by simpa [same] using inside⟩

@[simp] theorem mem_unlink :
    x ∈ unlink nodes id ↔ x ∈ nodes ∧ x.id ≠ id := by
  simp [unlink]

theorem isLeaf_iff {u : Nat} : isLeaf nodes u = true ↔ ∀ n ∈ nodes, n.parent ≠ u := by
  simp [isLeaf]

@[simp] theorem mapData_map_id (nodes : List (Node K D)) (f : Node K D → D) :
    (mapData nodes f).map (·.id) = nodes.map (·.id) := by
  simp [mapData]

theorem mem_mapData {f : Node K D → D} :
    x ∈ mapData nodes f ↔ ∃ n ∈ nodes, { n with data := f n } = x := List.mem_map

theorem modify_eq_mapData (nodes : List (Node K D)) (id : Nat) (f : D → D) :
    modify nodes id f = mapData nodes fun n => if n.id = id then f n.data else n.data := by
  refine List.map_congr_left fun n _ => ?_
  by_cases same : n.id = id
  · simp [same]
  · simp [same]

@[simp] theorem modifyAll_nil (nodes : List (Node K D)) (f : D → D) :
    modifyAll nodes [] f = nodes := by
  simp [modifyAll, mapData]

theorem modifyAll_cons {ids : List Nat} (f : D → D) (new : id ∉ ids) :
    modifyAll nodes (id :: ids) f = modifyAll (modify nodes id f) ids f := by
  rw [modify_eq_mapData]
  simp only [modifyAll, mapData, List.map_map]
  refine List.map_congr_left fun n _ => ?_
  simp only [Function.comp_apply, List.mem_cons]
  by_cases same : n.id = id
  · simp [same, new]
  · simp [same]

@[simp] theorem live_mapData {f : Node K D → D} {u : Nat} :
    Live (mapData nodes f) u ↔ Live nodes u := by
  have ids : (∃ n ∈ mapData nodes f, n.id = u) ↔ ∃ n ∈ nodes, n.id = u := by
    rw [← List.mem_map, ← List.mem_map, mapData_map_id]
  rw [Live, Live, ids]

@[simp] theorem live_modify {f : D → D} {u : Nat} :
    Live (modify nodes id f) u ↔ Live nodes u := by
  rw [modify_eq_mapData, live_mapData]

theorem lookup_modify (nodes : List (Node K D)) (id u : Nat) (f : D → D) :
    lookup (modify nodes id f) u =
      (lookup nodes u).map fun n => if n.id = id then { n with data := f n.data } else n := by
  rw [lookup, modify, List.find?_map, lookup]
  congr 2
  funext n
  by_cases same : n.id = id
  · simp [same]
  · simp [same]

theorem chain_map {look look' : Nat → Option (Node K D)} {g : Node K D → Node K D}
    (each : ∀ u, look' u = (look u).map g) (parents : ∀ n, (g n).parent = n.parent) (fuel u : Nat) :
    chain look' fuel u = (chain look fuel u).map g := by
  induction fuel generalizing u with
  | zero => rfl
  | succ fuel ih =>
    rw [chain, chain, each]
    cases look u with
    | none => rfl
    | some n =>
      simp only [Option.map_some, List.map_cons, List.cons.injEq, true_and]
      rw [parents, ih]

/-! ## The tree stays shaped -/

theorem Shaped.mapData (h : Shaped page nodes path) (f : Node K D → D) :
    Shaped page (mapData nodes f) path := by
  refine { positive := h.positive, root := h.root, distinct := ?_, nonroot := ?_, parent := ?_,
           nonempty := ?_, aligned := ?_, path_eq := ?_, apart := ?_ }
  · rw [mapData_map_id]
    exact h.distinct
  all_goals intro x mem; obtain ⟨n, hn, rfl⟩ := mem_mapData.mp mem
  · exact h.nonroot n hn
  · exact live_mapData.mpr (h.parent n hn)
  · exact h.nonempty n hn
  · exact h.aligned n hn
  · exact h.path_eq n hn
  · intro y mem' parents pages
    obtain ⟨m, hm, rfl⟩ := mem_mapData.mp mem'
    exact h.apart n hn m hm parents pages

theorem Shaped.modify (h : Shaped page nodes path) (id : Nat) (f : D → D) :
    Shaped page (modify nodes id f) path := by
  rw [modify_eq_mapData]
  exact h.mapData _

theorem live_split {n : Node K D} {pos fresh u : Nat} {head tail : D → D} (mem : n ∈ nodes) :
    Live (split nodes n.id pos fresh head tail) u ↔ Live nodes u ∨ u = fresh := by
  constructor
  · rintro (rfl | ⟨x, hx, rfl⟩)
    · exact .inl (live_root nodes)
    · rcases mem_split.mp hx with ⟨hx, -⟩ | ⟨m, hm, -, rfl | rfl⟩
      · exact .inl (live_of_mem hx)
      · exact .inr rfl
      · exact .inl (.inr ⟨m, hm, rfl⟩)
  · rintro ((rfl | ⟨x, hx, rfl⟩) | rfl)
    · exact live_root _
    · by_cases same : x.id = n.id
      · exact .inr ⟨_, mem_split.mpr (.inr ⟨n, mem, rfl, .inr rfl⟩), same.symm⟩
      · exact .inr ⟨x, mem_split.mpr (.inl ⟨hx, same⟩), rfl⟩
    · exact .inr ⟨_, mem_split.mpr (.inr ⟨n, mem, rfl, .inl rfl⟩), rfl⟩

theorem Live.ne_of_new {u fresh : Nat} (live : Live nodes u) (new : ¬ Live nodes fresh) :
    u ≠ fresh :=
  fun same => new (same ▸ live)

theorem Shaped.split (h : Shaped page nodes path) {n : Node K D} {pos fresh : Nat}
    (head tail : D → D) (mem : n ∈ nodes) (new : ¬ Live nodes fresh) (positive : 0 < pos)
    (below : pos < n.key.length) (whole : page ∣ pos) :
    Shaped page (PathTree.split nodes n.id pos fresh head tail)
      (Function.update path fresh (path n.parent ++ n.key.take pos)) := by
  have kept : ∀ u, Live nodes u →
      Function.update path fresh (path n.parent ++ n.key.take pos) u = path u :=
    fun u live => Function.update_of_ne (live.ne_of_new new) _ _
  have pages : page ≤ pos := Nat.le_of_dvd positive whole
  have firstPage : (n.key.take pos).take page = n.key.take page := by
    rw [List.take_take, Nat.min_eq_left pages]
  refine { positive := h.positive, root := ?_, distinct := ?_, nonroot := ?_, parent := ?_,
           nonempty := ?_, aligned := ?_, path_eq := ?_, apart := ?_ }
  · exact (kept 0 (live_root nodes)).trans h.root
  · obtain ⟨left, right, rfl, hleft, hright⟩ := h.exists_around mem
    rw [split_around hleft hright, List.map_append, List.map_cons, List.map_cons]
    refine List.nodup_middle.mpr (List.nodup_cons.mpr ⟨?_, ?_⟩)
    · intro inside
      rw [← List.map_cons (f := fun x : Node K D => x.id), ← List.map_append] at inside
      obtain ⟨m, hm, same⟩ := List.mem_map.mp inside
      refine new (.inr ?_)
      rcases List.mem_append.mp hm with hm | hm
      · exact ⟨m, by simp [hm], same⟩
      · rcases List.mem_cons.mp hm with rfl | hm
        · exact ⟨n, by simp, same⟩
        · exact ⟨m, by simp [hm], same⟩
    · simpa using h.distinct
  · intro x hx
    rcases mem_split.mp hx with ⟨hx, -⟩ | ⟨m, hm, -, rfl | rfl⟩
    · exact h.nonroot x hx
    · exact fun zero => new (.inl zero)
    · exact h.nonroot m hm
  · intro x hx
    rcases mem_split.mp hx with ⟨hx, -⟩ | ⟨m, hm, -, rfl | rfl⟩
    · exact (live_split mem).mpr (.inl (h.parent x hx))
    · exact (live_split mem).mpr (.inl (h.parent m hm))
    · exact (live_split mem).mpr (.inr rfl)
  · intro x hx
    rcases mem_split.mp hx with ⟨hx, -⟩ | ⟨m, hm, same, rfl | rfl⟩
    · exact h.nonempty x hx
    · simp [h.nonempty m hm, Nat.pos_iff_ne_zero.mp positive]
    · obtain rfl := h.eq_of_id hm mem same
      simpa using below
  · intro x hx
    rcases mem_split.mp hx with ⟨hx, -⟩ | ⟨m, hm, same, rfl | rfl⟩
    · exact h.aligned x hx
    · obtain rfl := h.eq_of_id hm mem same
      rwa [List.length_take, Nat.min_eq_left below.le]
    · rw [List.length_drop]
      exact Nat.dvd_sub (h.aligned m hm) whole
  · intro x hx
    rcases mem_split.mp hx with ⟨hx, -⟩ | ⟨m, hm, same, rfl | rfl⟩
    · rw [kept _ (live_of_mem hx), kept _ (h.parent x hx), h.path_eq x hx]
    · obtain rfl := h.eq_of_id hm mem same
      rw [Function.update_self, kept _ (h.parent m hm)]
    · obtain rfl := h.eq_of_id hm mem same
      rw [kept _ (live_of_mem hm), Function.update_self, List.append_assoc, List.take_append_drop,
        h.path_eq m hm]
  · intro x hx y hy parents first
    rcases mem_split.mp hx with ⟨hx', hxn⟩ | ⟨m, hm, same, rfl | rfl⟩
    · rcases mem_split.mp hy with ⟨hy', -⟩ | ⟨m', hm', same', rfl | rfl⟩
      · exact h.apart x hx' y hy' parents first
      · obtain rfl := h.eq_of_id hm' mem same'
        exact absurd (h.apart x hx' m' hm' parents (first.trans firstPage)) hxn
      · exact absurd parents ((h.parent x hx').ne_of_new new)
    · obtain rfl := h.eq_of_id hm mem same
      rcases mem_split.mp hy with ⟨hy', hyn⟩ | ⟨m', hm', same', rfl | rfl⟩
      · exact absurd (h.apart m hm y hy' parents (firstPage.symm.trans first)).symm hyn
      · rfl
      · exact absurd parents ((h.parent m hm).ne_of_new new)
    · rcases mem_split.mp hy with ⟨hy', -⟩ | ⟨m', hm', same', rfl | rfl⟩
      · exact absurd parents.symm ((h.parent y hy').ne_of_new new)
      · exact absurd parents.symm ((h.parent m' hm').ne_of_new new)
      · exact same.trans same'.symm

/-- A new leaf keeps the tree shaped when no other child of its parent starts with its first
page. -/
theorem Shaped.add (h : Shaped page nodes path) {u fresh : Nat} {key : List K} (data : D)
    (live : Live nodes u) (new : ¬ Live nodes fresh) (nonempty : key ≠ [])
    (whole : page ∣ key.length)
    (apart : ∀ n ∈ nodes, n.parent = u → n.key.take page ≠ key.take page) :
    Shaped page (nodes ++ [{ id := fresh, parent := u, key := key, data := data }])
      (Function.update path fresh (path u ++ key)) := by
  have kept : ∀ v, Live nodes v → Function.update path fresh (path u ++ key) v = path v :=
    fun v live => Function.update_of_ne (live.ne_of_new new) _ _
  have grown : ∀ v, Live nodes v →
      Live (nodes ++ [{ id := fresh, parent := u, key := key, data := data }]) v := by
    rintro v (rfl | ⟨x, hx, rfl⟩)
    · exact live_root _
    · exact live_of_mem (List.mem_append_left _ hx)
  refine { positive := h.positive, root := ?_, distinct := ?_, nonroot := ?_, parent := ?_,
           nonempty := ?_, aligned := ?_, path_eq := ?_, apart := ?_ }
  · exact (kept 0 (live_root nodes)).trans h.root
  · rw [List.map_append, List.map_singleton, List.nodup_append]
    refine ⟨h.distinct, List.nodup_singleton _, ?_⟩
    intro a ha b hb same
    obtain ⟨m, hm, rfl⟩ := List.mem_map.mp ha
    rw [List.mem_singleton] at hb
    exact new (.inr ⟨m, hm, same.trans hb⟩)
  all_goals intro x hx; rcases List.mem_append.mp hx with hx | hx
  · exact h.nonroot x hx
  · obtain rfl := List.mem_singleton.mp hx
    exact fun zero => new (.inl zero)
  · exact grown _ (h.parent x hx)
  · obtain rfl := List.mem_singleton.mp hx
    exact grown _ live
  · exact h.nonempty x hx
  · obtain rfl := List.mem_singleton.mp hx
    exact nonempty
  · exact h.aligned x hx
  · obtain rfl := List.mem_singleton.mp hx
    exact whole
  · rw [kept _ (live_of_mem hx), kept _ (h.parent x hx), h.path_eq x hx]
  · obtain rfl := List.mem_singleton.mp hx
    rw [Function.update_self, kept _ live]
  · intro y hy parents first
    rcases mem_concat hy with hy | rfl
    · exact h.apart x hx y hy parents first
    · exact absurd first (apart x hx parents)
  · obtain rfl := List.mem_singleton.mp hx
    intro y hy parents first
    rcases mem_concat hy with hy | hy
    · exact absurd first.symm (apart y hy parents.symm)
    · rw [hy]

theorem Shaped.unlink (h : Shaped page nodes path) {id : Nat}
    (leaf : ∀ n ∈ nodes, n.parent ≠ id) : Shaped page (unlink nodes id) path := by
  refine { positive := h.positive, root := h.root, distinct := ?_, nonroot := ?_, parent := ?_,
           nonempty := ?_, aligned := ?_, path_eq := ?_, apart := ?_ }
  · exact h.distinct.sublist (List.filter_sublist.map _)
  all_goals intro x hx; rw [mem_unlink] at hx
  · exact h.nonroot x hx.1
  · rcases h.parent x hx.1 with root | ⟨p, hp, same⟩
    · exact .inl root
    · exact .inr ⟨p, mem_unlink.mpr ⟨hp, same ▸ leaf x hx.1⟩, same⟩
  · exact h.nonempty x hx.1
  · exact h.aligned x hx.1
  · exact h.path_eq x hx.1
  · intro y hy
    exact h.apart x hx.1 y (mem_unlink.mp hy).1

/-! ## Sums over the nodes -/

section total
variable {weight : Node K D → Int} {n : Node K D}

@[simp] theorem total_nil : total weight [] = 0 := rfl

@[simp] theorem total_append (left right : List (Node K D)) :
    total weight (left ++ right) = total weight left + total weight right := by
  simp [total]

@[simp] theorem total_cons (n : Node K D) (nodes : List (Node K D)) :
    total weight (n :: nodes) = weight n + total weight nodes := by
  simp [total]

theorem Shaped.total_modify (h : Shaped page nodes path) (mem : n ∈ nodes) (f : D → D) :
    total weight (PathTree.modify nodes n.id f) =
      total weight nodes - weight n + weight { n with data := f n.data } := by
  obtain ⟨left, right, rfl, hleft, hright⟩ := h.exists_around mem
  rw [modify_around hleft hright]
  simp only [total_append, total_cons]
  omega

theorem Shaped.total_split (h : Shaped page nodes path) (mem : n ∈ nodes) (pos fresh : Nat)
    (head tail : D → D) :
    total weight (PathTree.split nodes n.id pos fresh head tail) = total weight nodes - weight n +
      weight { id := fresh, parent := n.parent, key := n.key.take pos, data := head n.data } +
      weight { id := n.id, parent := fresh, key := n.key.drop pos, data := tail n.data } := by
  obtain ⟨left, right, rfl, hleft, hright⟩ := h.exists_around mem
  rw [split_around hleft hright]
  simp only [total_append, total_cons]
  omega

theorem Shaped.total_unlink (h : Shaped page nodes path) (mem : n ∈ nodes) :
    total weight (PathTree.unlink nodes n.id) = total weight nodes - weight n := by
  obtain ⟨left, right, rfl, hleft, hright⟩ := h.exists_around mem
  rw [unlink_around hleft hright]
  simp only [total_append, total_cons]
  omega

end total

end FreeSwarm.Foundation.PathTree
