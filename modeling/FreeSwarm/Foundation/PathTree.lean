import Mathlib.Data.List.Nodup
import Mathlib.Data.List.Infix
import Mathlib.Order.Basic

/-!
# Compressed trees by path

A compressed tree is a list of nodes, each with an id, the id of its parent and the key segment on
the edge that leads to it; the root has the id `0` and is not in the list. Keys consist of pages of
`page` symbols. `Shaped` says that such a list is a tree without ambiguity, with a function that
gives the path from the root to every node. What the operations on a tree need follows from one
fact: no node lies inside the edge of another.
-/

namespace FreeSwarm.Foundation

structure Node (K D : Type*) where
  id : Nat
  /-- The identity of its parent, `0` for the root. -/
  parent : Nat
  key : List K
  data : D
  deriving DecidableEq, Repr

namespace PathTree

variable {K D : Type*} {page : Nat} {nodes : List (Node K D)} {path : Nat → List K}

def Live (nodes : List (Node K D)) (u : Nat) : Prop := u = 0 ∨ ∃ n ∈ nodes, n.id = u

theorem live_root (nodes : List (Node K D)) : Live nodes 0 := .inl rfl

theorem live_of_mem {n : Node K D} (mem : n ∈ nodes) : Live nodes n.id := .inr ⟨n, mem, rfl⟩

/-- The list of nodes is a tree of whole pages in which `path` leads from the root to each node, and
children of one parent differ in their first page. -/
structure Shaped (page : Nat) (nodes : List (Node K D)) (path : Nat → List K) : Prop where
  positive : 0 < page
  root : path 0 = []
  distinct : (nodes.map (·.id)).Nodup
  nonroot : ∀ n ∈ nodes, n.id ≠ 0
  parent : ∀ n ∈ nodes, Live nodes n.parent
  nonempty : ∀ n ∈ nodes, n.key ≠ []
  aligned : ∀ n ∈ nodes, page ∣ n.key.length
  path_eq : ∀ n ∈ nodes, path n.id = path n.parent ++ n.key
  apart : ∀ n ∈ nodes, ∀ m ∈ nodes, n.parent = m.parent → n.key.take page = m.key.take page →
    n.id = m.id

theorem Shaped.empty (positive : 0 < page) : Shaped page ([] : List (Node K D)) fun _ => [] := by
  constructor <;> simp [positive]

namespace Shaped

theorem eq_of_id (h : Shaped page nodes path) {n m : Node K D} (hn : n ∈ nodes) (hm : m ∈ nodes)
    (same : n.id = m.id) : n = m :=
  List.inj_on_of_nodup_map h.distinct hn hm same

variable {n : Node K D}

theorem page_le (h : Shaped page nodes path) (mem : n ∈ nodes) :
    page ≤ n.key.length :=
  Nat.le_of_dvd (List.length_pos_iff.mpr (h.nonempty n mem)) (h.aligned n mem)

theorem length_firstPage (h : Shaped page nodes path) (mem : n ∈ nodes) :
    (n.key.take page).length = page := by
  rw [List.length_take, Nat.min_eq_left (h.page_le mem)]

theorem length_path (h : Shaped page nodes path) (mem : n ∈ nodes) :
    (path n.id).length = (path n.parent).length + n.key.length := by
  rw [h.path_eq n mem, List.length_append]

theorem dvd_length_path (h : Shaped page nodes path) {u : Nat} (live : Live nodes u) :
    page ∣ (path u).length := by
  induction hlen : (path u).length using Nat.strong_induction_on generalizing u with
  | _ len ih =>
    rcases live with rfl | ⟨n, mem, rfl⟩
    · rw [← hlen, h.root]
      exact Nat.dvd_zero page
    · have longer := h.length_path mem
      have positive := h.positive
      have segment := h.page_le mem
      have above := ih _ (by omega) (h.parent n mem) rfl
      rw [← hlen, longer]
      exact Nat.dvd_add above (h.aligned n mem)

theorem add_page_le (h : Shaped page nodes path) {u v : Nat} (hu : Live nodes u)
    (hv : Live nodes v) (shorter : (path u).length < (path v).length) :
    (path u).length + page ≤ (path v).length := by
  have gap := Nat.dvd_sub (h.dvd_length_path hv) (h.dvd_length_path hu)
  have least := Nat.le_of_dvd (by omega) gap
  omega

theorem path_ne_nil (h : Shaped page nodes path) (mem : n ∈ nodes) :
    path n.id ≠ [] := by
  rw [h.path_eq n mem]
  simp [h.nonempty n mem]

/-- Nodes inside paths, by induction on the length of the path: a path that enters the edge of a
node goes through it, and a path belongs to one node. -/
theorem edge_and_injective (h : Shaped page nodes path) (bound : Nat) :
    (∀ n ∈ nodes, ∀ u, Live nodes u → (path u).length < bound →
      path n.parent ++ n.key.take page <+: path u → path n.id <+: path u) ∧
    (∀ u v, Live nodes u → Live nodes v → (path u).length < bound → path u = path v → u = v) := by
  induction bound with
  | zero => simp
  | succ bound ih =>
    obtain ⟨edge, injective⟩ := ih
    have positive := h.positive
    constructor
    · intro n hn u live below enters
      rcases live with rfl | ⟨m, hm, rfl⟩
      · rw [h.root] at enters
        have empty := enters.length_le
        have firstPage := h.length_firstPage hn
        simp only [List.length_append, List.length_nil] at empty
        omega
      · have upper : path n.parent <+: path m.id := (List.prefix_append _ _).trans enters
        have lower : path m.parent <+: path m.id := h.path_eq m hm ▸ List.prefix_append _ _
        have longer := h.length_path hm
        have segment := h.page_le hm
        have room := enters.length_le
        have firstPage := h.length_firstPage hn
        simp only [List.length_append] at room
        rcases Nat.lt_trichotomy (path n.parent).length (path m.parent).length with lt | eq | gt
        · have gap := h.add_page_le (h.parent n hn) (h.parent m hm) lt
          have enters' : path n.parent ++ n.key.take page <+: path m.parent :=
            List.prefix_of_prefix_length_le enters lower
              (by simp only [List.length_append]; omega)
          exact (edge n hn _ (h.parent m hm) (by omega) enters').trans lower
        · have same : path m.parent = path n.parent :=
            (List.prefix_of_prefix_length_le lower upper eq.ge).eq_of_length eq.symm
          have parents := injective _ _ (h.parent m hm) (h.parent n hn) (by omega) same
          have first : n.key.take page <+: m.key := by
            rw [h.path_eq m hm, same] at enters
            exact (List.prefix_append_right_inj _).mp enters
          have pages : n.key.take page = m.key.take page := by
            refine (List.prefix_of_prefix_length_le first (List.take_prefix _ _) ?_).eq_of_length ?_
            · rw [h.length_firstPage hn, h.length_firstPage hm]
            · rw [h.length_firstPage hn, h.length_firstPage hm]
          rw [h.apart n hn m hm parents.symm pages]
        · have gap := h.add_page_le (h.parent m hm) (h.parent n hn) gt
          have inside : path m.parent ++ m.key.take page <+: path n.parent := by
            refine List.prefix_of_prefix_length_le ?_ upper ?_
            · rw [h.path_eq m hm]
              exact (List.prefix_append_right_inj _).mpr (List.take_prefix _ _)
            · simp only [List.length_append, h.length_firstPage hm]
              omega
          have through := edge m hm _ (h.parent n hn) (by omega) inside
          have contra := through.length_le
          omega
    · intro u v hu hv below same
      rcases hu with rfl | ⟨n, hn, rfl⟩
      · rcases hv with rfl | ⟨m, hm, rfl⟩
        · rfl
        · exact absurd (same.symm.trans h.root) (h.path_ne_nil hm)
      · rcases hv with rfl | ⟨m, hm, rfl⟩
        · exact absurd (same.trans h.root) (h.path_ne_nil hn)
        · have upper : path n.parent <+: path n.id := h.path_eq n hn ▸ List.prefix_append _ _
          have lower : path m.parent <+: path n.id := by
            rw [same, h.path_eq m hm]
            exact List.prefix_append _ _
          have longer := h.length_path hn
          have longer' := h.length_path hm
          have segment := h.page_le hn
          have segment' := h.page_le hm
          have lengths : (path n.id).length = (path m.id).length := by rw [same]
          have first : ∀ a ∈ nodes, path a.parent ++ a.key.take page <+: path a.id := by
            intro a ha
            rw [h.path_eq a ha]
            exact (List.prefix_append_right_inj _).mpr (List.take_prefix _ _)
          rcases Nat.lt_trichotomy (path n.parent).length (path m.parent).length with lt | eq | gt
          · have gap := h.add_page_le (h.parent n hn) (h.parent m hm) lt
            have inside := List.prefix_of_prefix_length_le (first n hn) lower
              (by simp only [List.length_append, h.length_firstPage hn]; omega)
            have contra := (edge n hn _ (h.parent m hm) (by omega) inside).length_le
            omega
          · have parents' : path n.parent = path m.parent :=
              (List.prefix_of_prefix_length_le upper lower eq.le).eq_of_length eq
            have parents := injective _ _ (h.parent n hn) (h.parent m hm) (by omega) parents'
            have keys : n.key = m.key := by
              rw [h.path_eq n hn, h.path_eq m hm, parents'] at same
              exact List.append_cancel_left same
            exact h.apart n hn m hm parents (by rw [keys])
          · have gap := h.add_page_le (h.parent m hm) (h.parent n hn) gt
            have inside := List.prefix_of_prefix_length_le (same ▸ first m hm) upper
              (by simp only [List.length_append, h.length_firstPage hm]; omega)
            have contra := (edge m hm _ (h.parent n hn) (by omega) inside).length_le
            omega

theorem edge (h : Shaped page nodes path) {u : Nat} (mem : n ∈ nodes)
    (live : Live nodes u) (enters : path n.parent ++ n.key.take page <+: path u) :
    path n.id <+: path u :=
  (h.edge_and_injective _).1 n mem u live (Nat.lt_succ_self _) enters

theorem path_injective (h : Shaped page nodes path) {u v : Nat} (hu : Live nodes u)
    (hv : Live nodes v) (same : path u = path v) : u = v :=
  (h.edge_and_injective _).2 u v hu hv (Nat.lt_succ_self _) same

theorem prefix_parent (h : Shaped page nodes path) {u : Nat} (mem : n ∈ nodes)
    (live : Live nodes u) (above : path u <+: path n.id) (proper : u ≠ n.id) :
    path u <+: path n.parent := by
  have upper : path n.parent <+: path n.id := h.path_eq n mem ▸ List.prefix_append _ _
  by_cases short : (path u).length ≤ (path n.parent).length
  · exact List.prefix_of_prefix_length_le above upper short
  · exfalso
    have gap := h.add_page_le (h.parent n mem) live (by omega)
    have enters : path n.parent ++ n.key.take page <+: path u := by
      refine List.prefix_of_prefix_length_le ?_ above ?_
      · rw [h.path_eq n mem]
        exact (List.prefix_append_right_inj _).mpr (List.take_prefix _ _)
      · simp only [List.length_append, h.length_firstPage mem]
        omega
    have through := h.edge mem live enters
    have same : path u = path n.id := above.eq_of_length
      (Nat.le_antisymm above.length_le through.length_le)
    exact proper (h.path_injective live (live_of_mem mem) same)

end Shaped

/-! ## From a node to the root -/

def lookup (nodes : List (Node K D)) (id : Nat) : Option (Node K D) := nodes.find? (·.id = id)

/-- The nodes from one up to the root, by parent ids; the fuel bounds the number of steps. -/
def chain (look : Nat → Option (Node K D)) : Nat → Nat → List (Node K D)
  | 0, _ => []
  | fuel + 1, id =>
    match look id with
    | none => []
    | some n => n :: chain look fuel n.parent

inductive Climb (nodes : List (Node K D)) : Nat → List (Node K D) → Prop where
  | root : Climb nodes 0 []
  | node {n : Node K D} {above : List (Node K D)} :
    n ∈ nodes → Climb nodes n.parent above → Climb nodes n.id (n :: above)

theorem Shaped.lookup_eq (h : Shaped page nodes path) {n : Node K D} (mem : n ∈ nodes) :
    lookup nodes n.id = some n := by
  cases found : lookup nodes n.id with
  | none =>
    have absent := List.find?_eq_none.mp found n mem
    simp at absent
  | some m =>
    have same : m.id = n.id := by simpa using List.find?_some found
    rw [h.eq_of_id (List.mem_of_find?_eq_some found) mem same]

theorem Shaped.climb_chain (h : Shaped page nodes path) {look : Nat → Option (Node K D)}
    (known : ∀ n ∈ nodes, look n.id = some n) (rootless : look 0 = none) {fuel id : Nat}
    (live : Live nodes id) (enough : nodes.length ≤ fuel) :
    Climb nodes id (chain look fuel id) := by
  -- The fuel covers any list that holds every ancestor; each step removes one from it.
  have general : ∀ (fuel id : Nat) (ancestors : List Nat), Live nodes id →
      (∀ n ∈ nodes, path n.id <+: path id → n.id ∈ ancestors) → ancestors.length ≤ fuel →
      Climb nodes id (chain look fuel id) := by
    intro fuel
    induction fuel with
    | zero =>
      intro id ancestors live holds short
      rcases live with rfl | ⟨n, mem, rfl⟩
      · exact .root
      · have inside := List.length_pos_of_mem (holds n mem List.prefix_rfl)
        omega
    | succ fuel ih =>
      intro id ancestors live holds short
      rcases live with rfl | ⟨n, mem, rfl⟩
      · simp only [chain, rootless]
        exact .root
      · simp only [chain, known n mem]
        have inside := holds n mem List.prefix_rfl
        refine .node mem (ih n.parent (ancestors.erase n.id) (h.parent n mem) ?_ ?_)
        · intro m hm above
          have lengths := above.length_le
          have longer := h.length_path mem
          have segment := h.page_le mem
          have positive := h.positive
          have other : m.id ≠ n.id := by
            intro same
            rw [same] at lengths
            omega
          have through : path n.parent <+: path n.id := h.path_eq n mem ▸ List.prefix_append _ _
          exact (List.mem_erase_of_ne other).mpr (holds m hm (above.trans through))
        · rw [List.length_erase_of_mem inside]
          omega
  refine general fuel id (nodes.map (·.id)) live (fun n mem _ => List.mem_map_of_mem mem) ?_
  rw [List.length_map]
  exact enough

namespace Climb

variable {id : Nat} {above : List (Node K D)}

theorem live (c : Climb nodes id above) : Live nodes id := by
  cases c with
  | root => exact live_root nodes
  | node mem => exact live_of_mem mem

theorem mem_iff (h : Shaped page nodes path) (c : Climb nodes id above) {m : Node K D} :
    m ∈ above ↔ m ∈ nodes ∧ path m.id <+: path id := by
  induction c with
  | root =>
    simp only [List.not_mem_nil, h.root, false_iff, not_and, List.prefix_nil]
    exact fun mem => h.path_ne_nil mem
  | @node n above mem _ ih =>
    have through : path n.parent <+: path n.id := h.path_eq n mem ▸ List.prefix_append _ _
    rw [List.mem_cons, ih]
    constructor
    · rintro (rfl | ⟨hm, up⟩)
      · exact ⟨mem, List.prefix_rfl⟩
      · exact ⟨hm, up.trans through⟩
    · rintro ⟨hm, up⟩
      by_cases same : m.id = n.id
      · exact .inl (h.eq_of_id hm mem same)
      · exact .inr ⟨hm, h.prefix_parent mem (live_of_mem hm) up same⟩

theorem subset (c : Climb nodes id above) : ∀ m ∈ above, m ∈ nodes := by
  induction c with
  | root => simp
  | node mem _ ih =>
    intro m hm
    rcases List.mem_cons.mp hm with rfl | hm
    · exact mem
    · exact ih m hm

theorem distinct (h : Shaped page nodes path) (c : Climb nodes id above) :
    (above.map (·.id)).Nodup := by
  induction c with
  | root => simp
  | @node n above mem c ih =>
    rw [List.map_cons, List.nodup_cons]
    refine ⟨fun repeated => ?_, ih⟩
    obtain ⟨m, hm, same⟩ := List.mem_map.mp repeated
    have up := ((c.mem_iff h).mp hm).2.length_le
    have longer := h.length_path mem
    have segment := h.page_le mem
    have positive := h.positive
    rw [same] at up
    omega

theorem keys (h : Shaped page nodes path) (c : Climb nodes id above) :
    above.reverse.flatMap (·.key) = path id := by
  induction c with
  | root => simp [h.root]
  | node mem _ ih => simp [ih, h.path_eq _ mem]

theorem mono {nodes' : List (Node K D)} (c : Climb nodes id above) (held : ∀ m ∈ above, m ∈ nodes') :
    Climb nodes' id above := by
  induction c with
  | root => exact .root
  | node mem _ ih => exact .node (held _ (by simp)) (ih fun m hm => held m (by simp [hm]))

theorem rest {front above : List (Node K D)} {n : Node K D} (c : Climb nodes id (front ++ n :: above)) :
    Climb nodes n.id (n :: above) := by
  induction front generalizing id with
  | nil =>
    cases c with
    | node mem up => exact .node mem up
  | cons m front ih =>
    cases c with
    | node mem up => exact ih up

theorem unique (h : Shaped page nodes path) {above' : List (Node K D)} (c : Climb nodes id above)
    (c' : Climb nodes id above') : above = above' := by
  induction c generalizing above' with
  | root =>
    generalize start : 0 = u at c'
    cases c' with
    | root => rfl
    | node mem up => exact absurd start.symm (h.nonroot _ mem)
  | @node n above mem c ih =>
    generalize start : n.id = u at c'
    cases c' with
    | root => exact absurd start (h.nonroot n mem)
    | node mem' up =>
      obtain rfl := h.eq_of_id mem mem' start
      rw [ih up]

end Climb

end PathTree

end FreeSwarm.Foundation
