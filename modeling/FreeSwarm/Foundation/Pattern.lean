import FreeSwarm.Foundation.FindAll

/-!
# Patterns that are tried

A pattern is tried at a place of a text. It can match there in several ways, which are tried in order: a run of
characters is tried as long as it can be first, and the first of two alternatives before the second. The search for
all matches goes from left to right, and takes the first way at the first place where there is one.
-/

namespace FreeSwarm.Foundation

inductive Pattern
  | text (w : List Char)
  | many (least : Nat) (p : Char → Bool)
  | seq (a b : Pattern)
  | alt (a b : Pattern)
  | group (k : Nat) (a : Pattern)

/-- What a match keeps under its numbers. -/
abbrev Groups := List (Nat × List Char)

namespace Pattern

/-- The ways in which a pattern matches at the front of a text, in the order in which they are tried: what is kept,
and the text behind the match. -/
def ways : Pattern → List Char → List (Groups × List Char)
  | text w, t => if w <+: t then [([], t.drop w.length)] else []
  | many least p, t =>
    ((List.range ((t.takeWhile p).length + 1)).reverse.filter (least ≤ ·)).map fun n => ([], t.drop n)
  | seq a b, t => (a.ways t).flatMap fun way => (b.ways way.2).map fun way' => (way.1 ++ way'.1, way'.2)
  | alt a b, t => a.ways t ++ b.ways t
  | group k a, t => (a.ways t).map fun way => ((k, t.take (t.length - way.2.length)) :: way.1, way.2)

/-- The first match in a text. -/
def search (p : Pattern) : List Char → Option (Groups × List Char)
  | [] => (p.ways []).head?
  | c :: t =>
    match (p.ways (c :: t)).head? with
    | some way => some way
    | none => p.search t

/-- The matches in a text. -/
def finditer (p : Pattern) (t : List Char) : List Groups := findAll p.search t

/-- The fewest characters that a match takes. -/
def least : Pattern → Nat
  | text w => w.length
  | many n _ => n
  | seq a b => a.least + b.least
  | alt a b => min a.least b.least
  | group _ a => a.least

variable {b : Pattern} {p : Pattern}

variable {run rest : List Char} {way : Groups × List Char} {t : List Char}

theorem length_of_ways (mem : way ∈ p.ways t) :
    way.2.length + p.least ≤ t.length := by
  induction p generalizing t way with
  | text w =>
    rw [ways] at mem
    split_ifs at mem with starts
    · obtain rfl := List.mem_singleton.mp mem
      have short := starts.length_le
      simp only [List.length_drop, least]
      omega
    · exact absurd mem List.not_mem_nil
  | many n p =>
    obtain ⟨k, inside, rfl⟩ := List.mem_map.mp mem
    simp only [List.mem_filter, List.mem_reverse, List.mem_range, decide_eq_true_eq] at inside
    have short := (List.takeWhile_prefix p (l := t)).length_le
    simp only [List.length_drop, least]
    omega
  | seq a b iha ihb =>
    obtain ⟨before, front, inside⟩ := List.mem_flatMap.mp mem
    obtain ⟨behind, back, rfl⟩ := List.mem_map.mp inside
    have left := iha front
    have right := ihb back
    simp only [least]
    omega
  | alt a b iha ihb =>
    simp only [least]
    rcases List.mem_append.mp mem with mem | mem
    · have left := iha mem
      omega
    · have right := ihb mem
      omega
  | group k a ih =>
    obtain ⟨inner, inside, rfl⟩ := List.mem_map.mp mem
    have short := ih inside
    exact short

theorem search_consumes (some_ : 0 < p.least) : Consumes p.search := by
  intro t
  induction t with
  | nil =>
    intro found rest is_
    have short := length_of_ways (List.mem_of_mem_head? is_)
    simp only [List.length_nil] at short
    omega
  | cons c t ih =>
    intro found rest is_
    rw [search] at is_
    cases here : (p.ways (c :: t)).head? with
    | some way =>
      rw [here] at is_
      cases is_
      exact (Nat.lt_add_of_pos_right some_).trans_le (length_of_ways (List.mem_of_mem_head? here))
    | none =>
      rw [here] at is_
      exact (ih found rest is_).trans (Nat.lt_succ_self _)

/-! ## Where the search comes -/

/-- The search for matches comes to what is left of the text: no match that starts earlier goes on there. -/
inductive Comes (p : Pattern) : List Char → List Char → Prop
  | here (t : List Char) : Comes p t t
  | on {c : Char} {t s : List Char} : p.ways (c :: t) = [] → Comes p t s → Comes p (c :: t) s
  | behind {t rest s : List Char} {found : Groups} : (p.ways t).head? = some (found, rest) → Comes p rest s →
      Comes p t s

theorem findAll_congr (some_ : 0 < p.least) {t t' : List Char} (same : p.search t = p.search t') :
    p.finditer t = p.finditer t' := by
  rw [finditer, finditer]
  cases first : p.search t with
  | none => rw [findAll_none first, findAll_none (same ▸ first)]
  | some result =>
    obtain ⟨found, rest⟩ := result
    have first' : p.search t' = some (found, rest) := same ▸ first
    rw [findAll_some (search_consumes some_) first, findAll_some (search_consumes some_) first']

theorem search_of_head (first : (p.ways t).head? = some way) :
    p.search t = some way := by
  cases t with
  | nil => exact first
  | cons c t => rw [search, first]

theorem search_of_nil {c : Char} (none_ : p.ways (c :: t) = []) :
    p.search (c :: t) = p.search t := by
  rw [search, none_]
  rfl

theorem mem_finditer (some_ : 0 < p.least) {t s rest : List Char} {found : Groups}
    (comes : p.Comes t s) (first : (p.ways s).head? = some (found, rest)) : found ∈ p.finditer t := by
  induction comes with
  | here t =>
    rw [finditer, findAll_some (search_consumes some_) (search_of_head first)]
    exact List.mem_cons_self
  | on none_ _ ih =>
    rw [findAll_congr some_ (search_of_nil none_)]
    exact ih first
  | behind first' _ ih =>
    rw [finditer, findAll_some (search_consumes some_) (search_of_head first')]
    exact List.mem_cons_of_mem _ (ih first)

/-! ## One part after the other -/

/-- The text does not start with a character of the kind. -/
def Stops (p : Char → Bool) (t : List Char) : Prop := ∀ c ∈ t.head?, p c = false

/-- The pattern does not match where the text starts with a character of the kind. -/
def Refuses (b : Pattern) (p : Char → Bool) : Prop := ∀ c t, p c = true → b.ways (c :: t) = []

theorem takeWhile_append_stops {p : Char → Bool} (all : ∀ c ∈ run, p c = true)
    (stops : Stops p rest) : (run ++ rest).takeWhile p = run := by
  rw [List.takeWhile_append_of_pos all]
  cases rest with
  | nil => simp
  | cons c rest => simp [stops c rfl]

theorem seq_text (w t : List Char) : (seq (text w) b).ways (w ++ t) = b.ways t := by
  simp [ways]

theorem seq_text_nil {w t : List Char} (differs : ¬w <+: t) : (seq (text w) b).ways t = [] := by
  simp [ways, differs]

theorem refuses_text {p : Char → Bool} {c : Char} {w : List Char} (not_ : p c = false) :
    (seq (text (c :: w)) b).Refuses p := by
  intro d t is_
  refine seq_text_nil fun starts => ?_
  obtain rfl := (List.cons_prefix_cons.mp starts).1
  exact absurd is_ (by simp [not_])

theorem ways_many {n : Nat} {p : Char → Bool} (all : ∀ c ∈ run, p c = true)
    (stops : Stops p rest) (long : n ≤ run.length) :
    ∃ shorter, (many n p).ways (run ++ rest) = ([], rest) :: shorter ∧
      ∀ way ∈ shorter, ∃ c t, p c = true ∧ way = ([], c :: t) := by
  rw [ways, takeWhile_append_stops all stops, List.range_succ, List.reverse_concat, List.filter_cons_of_pos (by simpa),
    List.map_cons, List.drop_left]
  refine ⟨_, rfl, ?_⟩
  intro way mem
  obtain ⟨k, inside, rfl⟩ := List.mem_map.mp mem
  simp only [List.mem_filter, List.mem_reverse, List.mem_range] at inside
  refine ⟨run[k], run.drop (k + 1) ++ rest, all _ (List.getElem_mem _), ?_⟩
  rw [List.drop_append_of_le_length inside.1.le, List.drop_eq_getElem_cons inside.1, List.cons_append]

theorem seq_many_nil {n : Nat} {p : Char → Bool} (stops : Stops p t) (some_ : 0 < n) :
    (seq (many n p) b).ways t = [] := by
  have none_ : t.takeWhile p = [] := takeWhile_append_stops (fun _ mem => absurd mem List.not_mem_nil) stops
  have ways_ : (many n p).ways t = [] := by
    rw [ways, none_]
    simp [some_.ne']
  rw [ways, ways_]
  rfl

theorem seq_many {n : Nat} {p : Char → Bool} (all : ∀ c ∈ run, p c = true)
    (stops : Stops p rest) (long : n ≤ run.length) (refuses : b.Refuses p) :
    (seq (many n p) b).ways (run ++ rest) = b.ways rest := by
  obtain ⟨shorter, is_, starts⟩ := ways_many all stops long
  rw [ways, is_, List.flatMap_cons, List.flatMap_eq_nil_iff.mpr, List.append_nil]
  · simp
  · intro way mem
    obtain ⟨c, t, inside, rfl⟩ := starts way mem
    rw [refuses c t inside, List.map_nil]

theorem head_seq_many {n : Nat} {p : Char → Bool}
    (all : ∀ c ∈ run, p c = true) (stops : Stops p rest) (long : n ≤ run.length)
    (first : (b.ways rest).head? = some way) : ((seq (many n p) b).ways (run ++ rest)).head? = some way := by
  obtain ⟨shorter, is_, -⟩ := ways_many all stops long
  rw [ways, is_, List.flatMap_cons, List.head?_append, List.head?_map, first]
  rfl

theorem head_group_many {n k : Nat} {p : Char → Bool} (all : ∀ c ∈ run, p c = true)
    (stops : Stops p rest) (long : n ≤ run.length) :
    ((group k (many n p)).ways (run ++ rest)).head? = some ([(k, run)], rest) := by
  obtain ⟨shorter, is_, -⟩ := ways_many all stops long
  rw [ways, is_, List.map_cons, List.head?_cons, List.length_append, Nat.add_sub_cancel, List.take_left]

theorem head_seq_group {n k : Nat} {p : Char → Bool}
    (all : ∀ c ∈ run, p c = true) (stops : Stops p rest) (long : n ≤ run.length)
    (first : (b.ways rest).head? = some way) :
    ((seq (group k (many n p)) b).ways (run ++ rest)).head? = some ((k, run) :: way.1, way.2) := by
  have here := head_group_many (k := k) all stops long
  rw [ways]
  cases ways_ : (group k (many n p)).ways (run ++ rest) with
  | nil =>
    rw [ways_] at here
    exact absurd here (by simp)
  | cons one others =>
    rw [ways_, List.head?_cons] at here
    cases here
    rw [List.flatMap_cons, List.head?_append, List.head?_map, first]
    rfl

theorem head_alt_left {a b : Pattern}
    (first : (a.ways t).head? = some way) : ((alt a b).ways t).head? = some way := by
  rw [ways, List.head?_append, first]
  rfl

theorem head_alt_right {a b : Pattern} (none_ : a.ways t = []) :
    ((alt a b).ways t).head? = (b.ways t).head? := by
  rw [ways, none_, List.nil_append]

end Pattern

end FreeSwarm.Foundation
