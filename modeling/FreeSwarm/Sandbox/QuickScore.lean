import FreeSwarm.Foundation.Machine
import FreeSwarm.Foundation.NpFloat
import FreeSwarm.Sandbox.SearchCausal
import Mathlib.Tactic.Ring

/-!
# A quick score

`quick_score` goes through the sessions one by one, a search scores its trials over all rows at once. Both earn the
same in every session: what the search shifts over the end of a session it sets to zero again.
-/

namespace FreeSwarm.Sandbox

open FreeSwarm.Foundation

/-- `p' / p - 1.0`. -/
def relativeChange (p p' : NpFloat) : NpFloat := (p'.div p).sub (.fin 1)

/-- The numbers of numpy, reckoned with exactly. -/
def exactFloats : Floats NpFloat where
  zero := .fin 0
  truthy x := decide (x ≠ .fin 0)
  nanToNum x := .fin (x.nanToNum 0)
  change := relativeChange
  sub := NpFloat.sub
  mul := NpFloat.mul
  abs := NpFloat.abs
  sum := NpFloat.sum
  float32 := id

/-! ## One session -/

structure SessionScore where
  daily : NpFloat
  gross : NpFloat
  flip : NpFloat
  trades : Nat
  longs : Nat
  shorts : Nat
  active : Bool
deriving DecidableEq

/-- `h`: what is held over the rows of a session, from row `a` to before row `b`. -/
def sessionHeld (pos : List NpFloat) (delay a b : Nat) : List NpFloat :=
  (if delay < b - a then List.replicate delay (.fin 0) ++ (pos.drop a).take (b - delay - a)
    else List.replicate (b - a) (.fin 0)).set (b - a - 1) (.fin 0)

/-- `r`: what the price does to the next row of a session. -/
def sessionChange (prices : List NpFloat) (a b : Nat) : List NpFloat :=
  (List.zipWith relativeChange ((prices.drop a).take (b - 1 - a)) ((prices.drop (a + 1)).take (b - (a + 1))) ++
    [NpFloat.fin 0]).map fun x : NpFloat => .fin (x.nanToNum 0)

/-- `turn`: how much the position changes at each row of a session. -/
def sessionTurn (h : List NpFloat) : List NpFloat :=
  List.zipWith (fun before now => (now.sub before).abs) (.fin 0 :: h) h

/-- `opened`: the rows of a session at which a trade opens. -/
def sessionOpened (h : List NpFloat) : List NpFloat :=
  ((List.zip (.fin 0 :: h.dropLast) h).filter fun (before, now) =>
    decide (now ≠ .fin 0) && decide (now.sign ≠ before.sign)).map Prod.snd

/-- One round of the loop. -/
def scoreSession (pos prices : List NpFloat) (cost : NpFloat) (delay a b : Nat) : SessionScore :=
  let h := sessionHeld pos delay a b
  let gross := NpFloat.sum (List.zipWith NpFloat.mul h (sessionChange prices a b))
  let turn := NpFloat.sum (sessionTurn h)
  { daily := gross.sub (cost.mul turn)
    gross := gross
    flip := gross.neg.sub (cost.mul turn)
    trades := (sessionOpened h).length
    longs := (sessionOpened h).countP fun x => x.sign = 1
    shorts := (sessionOpened h).countP fun x => x.sign = -1
    active := h.any fun x => decide (x ≠ .fin 0) }

/-- The loop of `quick_score` over the sessions. -/
def sessionLoop (starts ends : List Nat) (pos prices : List NpFloat) (cost : NpFloat) (delay : Nat) :
    List SessionScore :=
  List.zipWith (scoreSession pos prices cost delay) starts ends

/-! ## What it comes to -/

variable {pos : List ℚ} {prices : List NpFloat} {delay a b : Nat}

def heldAt (pos : List ℚ) (delay a b j : Nat) : ℚ :=
  if j < delay ∨ j + 1 = b - a then 0 else pos.getD (a + j - delay) 0

/-- What the price does after a row of a session. -/
def changeAt (prices : List NpFloat) (a b j : Nat) : ℚ :=
  if j + 1 = b - a then 0
  else (relativeChange (prices.getD (a + j) .nan) (prices.getD (a + j + 1) .nan)).nanToNum 0

/-- How much the position changes at a row of a session. -/
def turnAt (pos : List ℚ) (delay a b j : Nat) : ℚ :=
  |heldAt pos delay a b j - if j = 0 then 0 else heldAt pos delay a b (j - 1)|

/-- The rows of a session but the last, before the position is closed. -/
theorem getElem?_held (inside : b ≤ pos.length) {j : Nat} (before : j + 1 < b - a) :
    (if delay < b - a then List.replicate delay (NpFloat.fin 0) ++ ((pos.map NpFloat.fin).drop a).take (b - delay - a)
      else List.replicate (b - a) (NpFloat.fin 0))[j]? = some (.fin (heldAt pos delay a b j)) := by
  unfold heldAt
  by_cases early : j < delay
  · rw [if_pos (Or.inl early)]
    split
    case isTrue => rw [List.getElem?_append_left (by simpa using early), List.getElem?_replicate, if_pos early]
    case isFalse => rw [List.getElem?_replicate, if_pos (by omega)]
  · have far : a + (j - delay) < pos.length := by omega
    rw [if_neg (show ¬(j < delay ∨ j + 1 = b - a) by omega), if_pos (by omega),
      List.getElem?_append_right (by simpa using Nat.not_lt.mp early), List.length_replicate,
      List.getElem?_take_of_lt (by omega), List.getElem?_drop, List.getElem?_map,
      show a + j - delay = a + (j - delay) by omega, List.getD_eq_getElem _ _ far, List.getElem?_eq_getElem far]
    rfl

theorem sessionHeld_eq (some_ : a < b) (inside : b ≤ pos.length) :
    sessionHeld (pos.map .fin) delay a b = (List.range (b - a)).map fun j => .fin (heldAt pos delay a b j) := by
  have length : (if delay < b - a then
        List.replicate delay (NpFloat.fin 0) ++ ((pos.map NpFloat.fin).drop a).take (b - delay - a)
      else List.replicate (b - a) (NpFloat.fin 0)).length = b - a := by
    split
    · simp only [List.length_append, List.length_replicate, List.length_take, List.length_drop, List.length_map]
      omega
    · exact List.length_replicate
  refine List.ext_getElem? fun j => ?_
  unfold sessionHeld
  rw [List.getElem?_map]
  by_cases out : b - a ≤ j
  · rw [List.getElem?_eq_none (by rw [List.length_set, length]; exact out),
      List.getElem?_eq_none (by rw [List.length_range]; exact out)]
    rfl
  · rw [List.getElem?_range (by omega), Option.map_some]
    by_cases last : b - a - 1 = j
    · have closed : heldAt pos delay a b j = 0 := if_pos (.inr (by omega))
      rw [last, List.getElem?_set_self (by rw [length]; omega), closed]
    · rw [List.getElem?_set_ne last, getElem?_held inside (by omega)]

theorem sessionChange_eq (some_ : a < b) (inside : b ≤ prices.length) :
    sessionChange prices a b = (List.range (b - a)).map fun j => .fin (changeAt prices a b j) := by
  have length : (List.zipWith relativeChange ((prices.drop a).take (b - 1 - a))
      ((prices.drop (a + 1)).take (b - (a + 1)))).length = b - a - 1 := by
    simp only [List.length_zipWith, List.length_take, List.length_drop]
    omega
  refine List.ext_getElem? fun j => ?_
  unfold sessionChange
  rw [List.getElem?_map, List.getElem?_map]
  by_cases out : b - a ≤ j
  · rw [List.getElem?_eq_none (by rw [List.length_append, length, List.length_singleton]; omega),
      List.getElem?_eq_none (by rw [List.length_range]; exact out)]
    rfl
  · rw [List.getElem?_range (by omega), Option.map_some]
    unfold changeAt
    by_cases last : j + 1 = b - a
    · rw [List.getElem?_append_right (by omega), if_pos last, length, show j - (b - a - 1) = 0 by omega]
      rfl
    · have here : a + j + 1 < prices.length := by omega
      rw [List.getElem?_append_left (by omega), if_neg last, List.getElem?_zipWith,
        List.getElem?_take_of_lt (by omega), List.getElem?_take_of_lt (by omega), List.getElem?_drop,
        List.getElem?_drop, show a + 1 + j = a + j + 1 by omega, List.getD_eq_getElem _ _ (by omega),
        List.getD_eq_getElem _ _ here, List.getElem?_eq_getElem (by omega), List.getElem?_eq_getElem here]
      rfl

theorem sessionTurn_eq (f : Nat → ℚ) (n : Nat) : sessionTurn ((List.range n).map fun j => .fin (f j)) =
    (List.range n).map fun j => .fin |f j - if j = 0 then 0 else f (j - 1)| := by
  refine List.ext_getElem (by simp [sessionTurn]) fun j _ right => ?_
  rw [List.length_map, List.length_range] at right
  simp only [sessionTurn, List.getElem_zipWith, List.getElem_map, List.getElem_range]
  cases j with
  | zero => simp
  | succ j => simp

theorem sum_sub_mul (f g : Nat → ℚ) (c : ℚ) (js : List Nat) :
    (js.map fun j => f j - c * g j).sum = (js.map f).sum - c * (js.map g).sum := by
  induction js with
  | nil => simp
  | cons j js ih =>
    simp only [List.map_cons, List.sum_cons, ih]
    ring

theorem daily_eq (some_ : a < b) (inside : b ≤ pos.length) (same : prices.length = pos.length) (cost : ℚ) :
    (scoreSession (pos.map .fin) prices (.fin cost) delay a b).daily =
      .fin ((List.range (b - a)).map fun j =>
        heldAt pos delay a b j * changeAt prices a b j - cost * turnAt pos delay a b j).sum := by
  have products : List.zipWith NpFloat.mul ((List.range (b - a)).map fun j => .fin (heldAt pos delay a b j))
      ((List.range (b - a)).map fun j => .fin (changeAt prices a b j)) =
        ((List.range (b - a)).map fun j => heldAt pos delay a b j * changeAt prices a b j).map .fin := by
    rw [List.zipWith_map, List.zipWith_self, List.map_map]
    rfl
  have turns : sessionTurn ((List.range (b - a)).map fun j => .fin (heldAt pos delay a b j)) =
      ((List.range (b - a)).map (turnAt pos delay a b)).map .fin := by
    rw [sessionTurn_eq, List.map_map]
    rfl
  unfold scoreSession
  dsimp only
  rw [sessionHeld_eq some_ inside, sessionChange_eq some_ (by omega), products, turns, NpFloat.sum_fin, NpFloat.sum_fin,
    NpFloat.fin_mul, NpFloat.fin_sub, sum_sub_mul]

/-! ## Sessions of the rows -/

variable {V Row : Type} {env : Env V Row} {rows : List Row}

theorem session_bounds {d : Nat} (inside : d < (begins env rows).length) :
    (begins env rows).getD d 0 < (ends env rows).getD d 0 ∧ (ends env rows).getD d 0 ≤ rows.length := by
  have first : (begins env rows).getD d 0 = (begins env rows)[d] := List.getD_eq_getElem _ _ inside
  have real := lt_of_mem_begins (List.getElem_mem inside)
  rw [ends_getD inside, first]
  cases next : (begins env rows)[d + 1]? with
  | none => exact ⟨real, Nat.le_refl _⟩
  | some start =>
    obtain ⟨inside', is_⟩ := List.getElem?_eq_some_iff.mp next
    have order := List.pairwise_iff_getElem.mp (starts_sorted _) d (d + 1) inside inside' (Nat.lt_succ_self d)
    rw [Option.getD_some, ← is_]
    exact ⟨order, Nat.le_of_lt (lt_of_mem_begins (List.getElem_mem inside'))⟩

theorem not_begins {d start : Nat} (inside : d < (begins env rows).length) (mem : start ∈ begins env rows)
    (after : (begins env rows).getD d 0 < start) : (ends env rows).getD d 0 ≤ start := by
  obtain ⟨e, inside', rfl⟩ := List.getElem_of_mem mem
  rw [List.getD_eq_getElem _ _ inside] at after
  have sorted := List.pairwise_iff_getElem.mp (starts_sorted (rows.map fun row => env.session (env.time row)))
  have later : d < e := by
    by_contra upTo
    rcases Nat.lt_or_eq_of_le (Nat.not_lt.mp upTo) with lt | rfl
    · have order := sorted e d inside' inside lt
      exact absurd after (Nat.lt_asymm order)
    · exact absurd after (Nat.lt_irrefl _)
  have next : d + 1 < (begins env rows).length := by omega
  rw [ends_getD inside, List.getElem?_eq_getElem next, Option.getD_some]
  rcases Nat.lt_or_eq_of_le (Nat.succ_le_of_lt later) with lt | rfl
  · exact Nat.le_of_lt (sorted (d + 1) e next inside' lt)
  · exact Nat.le_refl _

theorem session_row {d i : Nat} (inside : d < (begins env rows).length) (from_ : (begins env rows).getD d 0 ≤ i)
    (before : i < (ends env rows).getD d 0) :
    sessionOf env rows i = (begins env rows).getD d 0 ∧
      (i + 1 ∈ ends env rows ↔ i + 1 = (ends env rows).getD d 0) := by
  have bounds := session_bounds inside
  have mem : (begins env rows).getD d 0 ∈ begins env rows := by
    rw [List.getD_eq_getElem _ _ inside]
    exact List.getElem_mem inside
  constructor
  · unfold sessionOf
    have upTo : (begins env rows).getD d 0 ∈ (begins env rows).filter fun start => start ≤ i :=
      List.mem_filter.mpr ⟨mem, decide_eq_true from_⟩
    have sorted : ((begins env rows).filter fun start => start ≤ i).Pairwise (· < ·) := (starts_sorted _).filter _
    obtain ⟨front, last, split⟩ :=
      (List.eq_nil_or_concat ((begins env rows).filter fun start => start ≤ i)).resolve_left
        (List.ne_nil_of_mem upTo)
    rw [List.concat_eq_append] at split
    rw [split] at upTo sorted ⊢
    rw [List.getLast?_concat, Option.getD_some]
    have lastMem : last ∈ (begins env rows).filter fun start => start ≤ i := by
      rw [split]
      exact List.mem_append_right _ (List.mem_singleton_self last)
    obtain ⟨begun, le⟩ := List.mem_filter.mp lastMem
    rcases mem_concat upTo with early | here
    · have lt := (List.pairwise_append.mp sorted).2.2 _ early last (List.mem_singleton_self last)
      have far := not_begins inside begun lt
      have le := of_decide_eq_true le
      omega
    · exact here.symm
  · constructor
    · intro ended
      rcases mem_concat ended with next | last
      · have far := not_begins inside (List.mem_of_mem_tail next) (by omega)
        omega
      · have end_ := last
        omega
    · intro ended
      rw [ended, ends_getD inside]
      cases next : (begins env rows)[d + 1]? with
      | none => exact List.mem_append_right _ (List.mem_singleton_self _)
      | some start =>
        refine List.mem_append_left _ (List.mem_of_getElem? (i := d) ?_)
        rw [List.getElem?_tail]
        exact next

theorem mem_ends_of_begins {start : Nat} (mem : start ∈ begins env rows) (later : 0 < start) :
    start ∈ ends env rows := by
  have sorted : (begins env rows).Pairwise (· < ·) := starts_sorted _
  have zero : 0 ∈ begins env rows := by
    refine List.mem_filter.mpr ⟨List.mem_range.mpr ?_, by simp⟩
    rw [List.length_map]
    exact Nat.zero_lt_of_lt (lt_of_mem_begins mem)
  unfold ends
  cases split : begins env rows with
  | nil => exact absurd (split ▸ mem) List.not_mem_nil
  | cons first rest =>
    rw [split] at mem zero sorted
    have least := (List.pairwise_cons.mp sorted).1
    rcases List.mem_cons.mp mem with rfl | next
    · rcases List.mem_cons.mp zero with same | below
      · omega
      · exact absurd (least 0 below) (Nat.not_lt_zero _)
    · exact List.mem_append_left _ next

/-! ## Both scores -/

/-- What a search runs on, with exact numbers. -/
def Env.exact {Row : Type} (env : Env NpFloat Row) : Env NpFloat Row := { env with num := exactFloats }

variable {Row : Type} {env : Env NpFloat Row} {rows : List Row}

theorem netReturn_eq {d j : Nat} (inside : d < (begins env.exact rows).length) (one : pos.length = rows.length)
    (cost : ℚ) (before : (begins env.exact rows).getD d 0 + j < (ends env.exact rows).getD d 0) :
    netReturn env.exact rows (pos.map .fin) (.fin cost) delay ((begins env.exact rows).getD d 0 + j) =
      .fin (heldAt pos delay ((begins env.exact rows).getD d 0) ((ends env.exact rows).getD d 0) j *
          changeAt (rows.map env.price) ((begins env.exact rows).getD d 0) ((ends env.exact rows).getD d 0) j -
        cost * turnAt pos delay ((begins env.exact rows).getD d 0) ((ends env.exact rows).getD d 0) j) := by
  obtain ⟨some_, bound⟩ := session_bounds inside
  have row := fun i => session_row (i := i) inside
  have mem : (begins env.exact rows).getD d 0 ∈ begins env.exact rows := by
    rw [List.getD_eq_getElem _ _ inside]
    exact List.getElem_mem inside
  generalize (begins env.exact rows).getD d 0 = a at before some_ row mem ⊢
  generalize (ends env.exact rows).getD d 0 = b at before some_ bound row ⊢
  have heldFin : ∀ j, a + j < b →
      held env.exact rows (pos.map .fin) delay (a + j) = .fin (heldAt pos delay a b j) := by
    intro j before
    obtain ⟨session, last⟩ := row (a + j) (Nat.le_add_right a j) before
    unfold held heldAt
    rw [session, Nat.add_sub_cancel_left]
    by_cases closed : j < delay ∨ a + j + 1 ∈ ends env.exact rows
    · rw [if_pos closed, if_pos (by rw [last] at closed; omega)]
      rfl
    · rw [if_neg closed]
      rw [last] at closed
      rw [if_neg (by omega), List.getD_eq_getElem _ _ (by rw [List.length_map]; omega),
        List.getD_eq_getElem _ _ (by omega), List.getElem_map]
  have changeFin : priceChange env.exact rows (a + j) = .fin (changeAt (rows.map env.price) a b j) := by
    obtain ⟨-, last⟩ := row (a + j) (Nat.le_add_right a j) before
    unfold priceChange changeAt
    by_cases closed : a + j + 1 ∈ ends env.exact rows
    · rw [if_pos closed, if_pos (by rw [last] at closed; omega)]
      rfl
    · rw [if_neg closed]
      rw [last] at closed
      have here : a + j + 1 < rows.length := by omega
      rw [if_neg (by omega), List.getElem?_eq_getElem (by omega), List.getElem?_eq_getElem here,
        List.getD_eq_getElem _ _ (by rw [List.length_map]; omega),
        List.getD_eq_getElem _ _ (by rw [List.length_map]; omega), List.getElem_map, List.getElem_map]
      rfl
  have beforeFin : (if a + j = 0 then env.exact.num.zero else held env.exact rows (pos.map .fin) delay (a + j - 1)) =
      .fin (if j = 0 then 0 else heldAt pos delay a b (j - 1)) := by
    by_cases first : j = 0
    · -- The session before ended flat.
      subst first
      rw [Nat.add_zero, if_pos rfl]
      by_cases start : a = 0
      · rw [if_pos start]
        rfl
      · have ended : a - 1 + 1 ∈ ends env.exact rows := by
          rw [Nat.sub_add_cancel (Nat.pos_of_ne_zero start)]
          exact mem_ends_of_begins mem (Nat.pos_of_ne_zero start)
        rw [if_neg start, held, if_pos (.inr ended)]
        rfl
    · rw [if_neg (by omega), if_neg first, show a + j - 1 = a + (j - 1) by omega, heldFin (j - 1) (by omega)]
  unfold netReturn
  rw [beforeFin, heldFin j before, changeFin]
  unfold turnAt
  change ((NpFloat.fin _).mul (.fin _)).sub ((NpFloat.fin cost).mul ((NpFloat.fin _).sub (.fin _)).abs) = _
  rw [NpFloat.fin_mul, NpFloat.fin_sub (heldAt pos delay a b j), NpFloat.fin_abs, NpFloat.fin_mul, NpFloat.fin_sub]

/-- Three sessions, the second of one row; the price of a row is missing. -/
def threeSessions : List (Int × NpFloat) :=
  [(0, .fin 100), (0, .fin 110), (0, .nan), (0, .fin 99), (1, .fin 98), (2, .fin 100), (2, .fin 50)]

def sessionEnv : Env NpFloat (Int × NpFloat) where
  num := exactFloats
  rng := { strata := fun _ _ _ => [], place := fun _ _ => 0, intBetween := fun _ lo _ => lo
           floatBetween := fun _ lo _ => lo }
  time := Prod.fst
  price := Prod.snd
  session := id
  month := id
  pickTrial := fun _ => none

end FreeSwarm.Sandbox
