import Mathlib.Data.List.Perm.Basic

/-!
# Folders of look-ahead cuts

Look-ahead tests run on copies of the data that are cut at a time. Tests that cut at the same time share the folders.
One-off cuts of datasets count their users, and the last one removes the folders; who tests at a fixed cut is not
counted. Exports of a task are not counted at all.
-/

namespace FreeSwarm.Objectives.CutFolders

variable {C D : Type}

/-! ## Tests -/

/-- What is known of an objective. -/
structure Setup where
  /-- `T.is_task`. -/
  task : Bool
  features : Bool
  /-- `version`, of the task. -/
  version : String

/-- A folder with data before a cut. -/
inductive Folder (C D : Type) where
  /-- `mirror-...`: a copy of all datasets, or of those that a candidate reads. -/
  | mirror (cut : C) (only : Option D)
  /-- `features-cut-...`. -/
  | features (cut : C)
  /-- What `export_dir` exports, below `tmp` or the version. -/
  | exported (area : String) (cut : C)
deriving DecidableEq

/-- What a folder holds. -/
inductive Content where
  | absent
  | partly
  | full
deriving DecidableEq

/-- A test at one cut that is under way. -/
structure Test (C D : Type) where
  cut : C
  /-- `temporary`: the cut is a one-off one. -/
  temporary : Bool
  /-- `used`, which only one-off cuts look at. -/
  used : Option D
  obtained : List (Folder C D)
  copying : Option (Folder C D)

def exportFolder (o : Setup) (t : Test C D) : Folder C D :=
  .exported (if t.temporary then "tmp" else o.version) t.cut

def foldersOf (o : Setup) (t : Test C D) : List (Folder C D) :=
  if o.task then [exportFolder o t]
  else .mirror t.cut (if t.temporary then t.used else none) :: if o.features then [.features t.cut] else []

def nextFolder (o : Setup) (t : Test C D) : Option (Folder C D) := (foldersOf o t)[t.obtained.length]?

def Folder.cut : Folder C D → C
  | .mirror cut _ => cut
  | .features cut => cut
  | .exported _ cut => cut

def Folder.locked : Folder C D → Bool
  | .features _ => false
  | _ => true

/-! ## Runs -/

/-- All folders and the tests under way. -/
structure State (C D : Type) where
  content : Folder C D → Content
  /-- `_cut_users`. -/
  users : C → Nat
  running : List (Test C D)

/-- What a test does next. -/
inductive Action (C D : Type) where
  | start (cut : C) (temporary : Bool) (used : Option D)
  | copy (i : Nat)
  | take (i : Nat)
  | copied (i : Nat)
  | finish (i : Nat)

def Safe (s : State C D) : Prop := ∀ t ∈ s.running, ∀ f ∈ t.obtained, s.content f = .full

/-- No test is under way; folders may be left over. -/
def idle (content : Folder C D → Content) : State C D := { content := content, users := fun _ => 0, running := [] }

def Test.counted (o : Setup) (t : Test C D) : Bool := t.temporary && !o.task

section Actions

variable [DecidableEq C] [DecidableEq D]

variable (o : Setup) (s : State C D) (f : Folder C D)

def State.free : Bool := s.running.all fun t => decide (t.copying ≠ some f)

/-- A test that has begun. -/
def began (cut : C) (temporary : Bool) (used : Option D) (s : State C D) : State C D :=
  let t : Test C D := { cut := cut, temporary := temporary, used := used, obtained := [], copying := none }
  { s with
    users := if t.counted o then fun c => if c = cut then s.users c + 1 else s.users c else s.users
    running := s.running ++ [t] }

/-- What is not there is copied: a mirror or an export that is not complete, features that are not there. -/
def mayCopy : Bool :=
  if f.locked then s.free f && decide (s.content f ≠ .full) else decide (s.content f = .absent)

/-- What is there is taken: a mirror or an export that is complete, features as they are. -/
def mayTake : Bool :=
  if f.locked then s.free f && decide (s.content f = .full) else decide (s.content f ≠ .absent)

/-- The folders that a test removes at its end: `_discard_cut` and `discard`. -/
def removes (t : Test C D) (f : Folder C D) : Bool :=
  if t.temporary then
    if o.task then decide (f ∈ t.obtained)
    else decide (s.users t.cut ≤ 1) &&
      (decide (f ∈ t.obtained) ||
        match f with
        | .mirror cut (some _) => decide (cut = t.cut)
        | .features cut => decide (cut = t.cut)
        | _ => false)
  else false

def finished (i : Nat) (t : Test C D) (s : State C D) : State C D :=
  { content := fun f => if removes o s t f then .absent else s.content f
    users := if t.counted o then fun c => if c = t.cut then s.users c - 1 else s.users c else s.users
    running := s.running.eraseIdx i }

/-- A folder is copied: what was removed meanwhile is not there. -/
def filled : Content → Content
  | .absent => .partly
  | _ => .full

def step : Action C D → Option (State C D)
  | .start cut temporary used => some (began o cut temporary used s)
  | .copy i => do
    let t ← s.running[i]?
    let f ← nextFolder o t
    if t.copying = none ∧ mayCopy s f = true then
      some { s with
        content := fun g => if g = f then .partly else s.content g
        running := s.running.set i { t with copying := some f } }
    else none
  | .take i => do
    let t ← s.running[i]?
    let f ← nextFolder o t
    if t.copying = none ∧ mayTake s f = true then
      some { s with running := s.running.set i { t with obtained := t.obtained ++ [f] } }
    else none
  | .copied i => do
    let t ← s.running[i]?
    let f ← t.copying
    some { s with
      content := fun g => if g = f then filled (s.content f) else s.content g
      running := s.running.set i { t with obtained := t.obtained ++ [f], copying := none } }
  | .finish i => do
    let t ← s.running[i]?
    some (finished o i t s)

def run (o : Setup) (s : State C D) : List (Action C D) → Option (State C D)
  | [] => some s
  | a :: actions => (step o s a).bind fun s' => run o s' actions

/-- What tests have obtained is there, all along a run. -/
def SafeRun (o : Setup) (s : State C D) : List (Action C D) → Prop
  | [] => Safe s
  | a :: actions => Safe s ∧ ∀ s', step o s a = some s' → SafeRun o s' actions

/-! ## Care -/

/-- An action that the counting of one-off cuts does not have to make up for: what is taken is complete and what was
copied has not been removed meanwhile, the last one-off test of a cut does not remove what a test at a fixed cut has
obtained, and a one-off test of a task does not remove what any other one has obtained. -/
def Careful : Action C D → Prop
  | .start .. => True
  | .copy _ => True
  | .take i => ∀ t f, s.running[i]? = some t → nextFolder o t = some f → s.content f = .full
  | .copied i => ∀ t f, s.running[i]? = some t → t.copying = some f → s.content f ≠ .absent
  | .finish i => ∀ t, s.running[i]? = some t → ∀ u ∈ s.running.eraseIdx i,
    o.task = true ∨ u.temporary = false → ∀ f ∈ u.obtained, removes o s t f = false

def CarefulRun (o : Setup) (s : State C D) : List (Action C D) → Prop
  | [] => True
  | a :: actions => ∀ s', step o s a = some s' → Careful o s a ∧ CarefulRun o s' actions

end Actions

/-! ## Counting -/

section Lists

variable {α : Type} {l : List α} {x : α} {i : Nat}

theorem perm_erase (there : l[i]? = some x) : l.Perm (x :: l.eraseIdx i) := by
  obtain ⟨inside, rfl⟩ := List.getElem?_eq_some_iff.mp there
  exact (List.getElem_cons_eraseIdx_perm inside).symm

theorem perm_set (there : l[i]? = some x) (x' : α) : (l.set i x').Perm (x' :: l.eraseIdx i) :=
  List.set_perm_cons_eraseIdx (List.getElem?_eq_some_iff.mp there).1 x'

end Lists

section Steps

variable {o : Setup} {s s' : State C D} {t : Test C D} {f : Folder C D} {i : Nat}

theorem cut_of_mem (mem : f ∈ foldersOf o t) : f.cut = t.cut := by
  unfold foldersOf at mem
  split at mem
  · rw [List.mem_singleton.mp mem]
    rfl
  · rcases List.mem_cons.mp mem with rfl | rest
    · rfl
    · split at rest
      · rw [List.mem_singleton.mp rest]
        rfl
      · exact absurd rest List.not_mem_nil

theorem safe_set_iff (there : s.running[i]? = some t) (safe : Safe s) {t' : Test C D}
    (obtained : t'.obtained = t.obtained ++ [f]) {content : Folder C D → Content}
    (same : ∀ g, s.content g = .full → content g = .full) :
    Safe { s with content := content, running := s.running.set i t' } ↔ content f = .full := by
  constructor
  · intro safe'
    refine safe' t' ((perm_set there t').mem_iff.mpr List.mem_cons_self) f ?_
    rw [obtained]
    exact List.mem_append_right _ List.mem_cons_self
  · intro full u mem g has
    rcases List.mem_cons.mp ((perm_set there t').mem_iff.mp mem) with rfl | other
    · rw [obtained] at has
      rcases List.mem_append.mp has with old | new
      · exact same g (safe t (List.mem_of_getElem? there) g old)
      · rw [List.mem_singleton.mp new]
        exact full
    · exact same g (safe u (List.mem_of_mem_eraseIdx other) g has)

variable [DecidableEq C]

/-- What holds in all runs: one-off cuts are counted, and tests hold folders of their own. -/
structure Inv (o : Setup) (s : State C D) : Prop where
  count : ∀ c, s.users c = s.running.countP fun t => t.counted o && decide (t.cut = c)
  own : ∀ t ∈ s.running, ∀ f, f ∈ t.obtained ∨ t.copying = some f → f ∈ foldersOf o t

theorem Inv.set (inv : Inv o s) (there : s.running[i]? = some t) {t' : Test C D} (cut : t'.cut = t.cut)
    (temporary : t'.temporary = t.temporary) (used : t'.used = t.used)
    (own : ∀ f, f ∈ t'.obtained ∨ t'.copying = some f → f ∈ foldersOf o t) (content : Folder C D → Content) :
    Inv o { s with content := content, running := s.running.set i t' } where
  count := by
    intro c
    have counted : t'.counted o = t.counted o := by rw [Test.counted, Test.counted, temporary]
    rw [(perm_set there t').countP_eq, List.countP_cons, counted, cut, ← List.countP_cons,
      ← (perm_erase there).countP_eq]
    exact inv.count c
  own := by
    intro u mem g holds
    have same : foldersOf o t' = foldersOf o t := by
      rw [foldersOf, foldersOf, exportFolder, exportFolder, cut, temporary, used]
    rcases List.mem_cons.mp ((perm_set there t').mem_iff.mp mem) with rfl | other
    · rw [same]
      exact own g holds
    · exact inv.own u (List.mem_of_mem_eraseIdx other) g holds

theorem start_step (inv : Inv o s) (safe : Safe s) (cut : C) (temporary : Bool) (used : Option D) :
    Inv o (began o cut temporary used s) ∧ Safe (began o cut temporary used s) := by
  refine ⟨⟨?_, ?_⟩, ?_⟩
  · intro c
    simp only [began, List.countP_append, List.countP_singleton]
    rw [← inv.count c]
    cases counted : Test.counted o
        ({ cut := cut, temporary := temporary, used := used, obtained := [], copying := none } : Test C D) with
    | false => simp
    | true =>
      by_cases is_ : cut = c
      · subst is_
        simp
      · simp [is_, Ne.symm is_]
  · intro t mem f holds
    rcases List.mem_append.mp mem with old | new
    · exact inv.own t old f holds
    · rw [List.mem_singleton.mp new] at holds
      exact absurd holds (by simp)
  · intro t mem f has
    rcases List.mem_append.mp mem with old | new
    · exact safe t old f has
    · rw [List.mem_singleton.mp new] at has
      exact absurd has List.not_mem_nil

variable [DecidableEq D]

theorem removes_data (own : ∀ g ∈ t.obtained, g ∈ foldersOf o t) (data : o.task = false)
    (removed : removes o s t f = true) : t.temporary = true ∧ s.users t.cut ≤ 1 ∧ f.cut = t.cut := by
  unfold removes at removed
  split at removed
  · next temporary =>
    rw [data] at removed
    simp only [Bool.false_eq_true, if_false, Bool.and_eq_true, decide_eq_true_eq, Bool.or_eq_true] at removed
    obtain ⟨last, has | named⟩ := removed
    · exact ⟨temporary, last, cut_of_mem (own f has)⟩
    · refine ⟨temporary, last, ?_⟩
      split at named
      · exact of_decide_eq_true named
      · exact of_decide_eq_true named
      · exact absurd named Bool.false_ne_true
  · exact absurd removed Bool.false_ne_true

theorem not_removes (inv : Inv o s) (there : s.running[i]? = some t) {u : Test C D}
    (other : u ∈ s.running.eraseIdx i) (data : o.task = false) (temporary : u.temporary = true)
    (has : f ∈ u.obtained) : removes o s t f = false := by
  by_contra removed
  rw [Bool.not_eq_false] at removed
  have mem := List.mem_of_getElem? there
  have mem' := List.mem_of_mem_eraseIdx other
  obtain ⟨one, last, cut⟩ := removes_data (fun g has => inv.own t mem g (.inl has)) data removed
  have same : u.cut = t.cut := (cut_of_mem (inv.own u mem' f (.inl has))).symm.trans cut
  have two : 0 < (s.running.eraseIdx i).countP fun v => v.counted o && decide (v.cut = t.cut) :=
    List.countP_pos_iff.mpr ⟨u, other, by simp [Test.counted, temporary, data, same]⟩
  have count := inv.count t.cut
  rw [(perm_erase there).countP_eq, List.countP_cons, if_pos (by simp [Test.counted, one, data])] at count
  omega

/-- What tests have obtained stays there after one has ended, exactly if that was done with care. -/
theorem finish_step (inv : Inv o s) (safe : Safe s) (there : s.running[i]? = some t) :
    Inv o (finished o i t s) ∧ (Safe (finished o i t s) ↔ Careful o s (.finish i)) := by
  refine ⟨⟨?_, ?_⟩, ?_, ?_⟩
  · intro c
    have count := inv.count c
    rw [(perm_erase there).countP_eq, List.countP_cons] at count
    cases counted : t.counted o with
    | false => simpa [finished, counted] using count
    | true =>
      by_cases is_ : c = t.cut
      · subst is_
        simp only [finished, counted, if_true]
        simp only [counted, Bool.true_and, decide_true, if_true] at count
        omega
      · simp only [finished, counted, if_true, if_neg is_]
        simpa [counted, Ne.symm is_] using count
  · exact fun u mem => inv.own u (List.mem_of_mem_eraseIdx mem)
  · intro safe' t' there' u other _ f has
    cases Option.some.inj (there.symm.trans there')
    by_contra removed
    rw [Bool.not_eq_false] at removed
    have full := safe' u other f has
    simp [finished, removed] at full
  · intro careful u other f has
    have kept : removes o s t f = false := by
      cases data : o.task with
      | true => exact careful t there u other (.inl data) f has
      | false =>
        cases temporary : u.temporary with
        | true => exact not_removes inv there other data temporary has
        | false => exact careful t there u other (.inr temporary) f has
    have full := safe u (List.mem_of_mem_eraseIdx other) f has
    simpa [finished, kept] using full

theorem step_safe (inv : Inv o s) (safe : Safe s) {a : Action C D} (done : step o s a = some s') :
    Inv o s' ∧ (Safe s' ↔ Careful o s a) := by
  cases a with
  | start cut temporary used =>
    cases Option.some.inj done
    obtain ⟨inv', safe'⟩ := start_step inv safe cut temporary used
    exact ⟨inv', iff_of_true safe' trivial⟩
  | copy i =>
    obtain ⟨t, there, done⟩ := Option.bind_eq_some_iff.mp done
    obtain ⟨f, next, done⟩ := Option.bind_eq_some_iff.mp done
    split at done
    · next may =>
      cases Option.some.inj done
      have mem := List.mem_of_getElem? there
      refine ⟨inv.set there (by rfl) (by rfl) (by rfl) ?_ _, iff_of_true ?_ trivial⟩
      · intro g holds
        rcases holds with has | new
        · exact inv.own t mem g (.inl has)
        · cases Option.some.inj new
          exact List.mem_of_getElem? next
      · intro u mem' g has
        have full : s.content g = .full := by
          rcases List.mem_cons.mp ((perm_set there _).mem_iff.mp mem') with rfl | other
          · exact safe t mem g has
          · exact safe u (List.mem_of_mem_eraseIdx other) g has
        have differ : g ≠ f := by
          rintro rfl
          have may' := may.2
          unfold mayCopy at may'
          split at may'
          · simp [full] at may'
          · simp [full] at may'
        simpa [differ] using full
    · exact absurd done (by simp)
  | take i =>
    obtain ⟨t, there, done⟩ := Option.bind_eq_some_iff.mp done
    obtain ⟨f, next, done⟩ := Option.bind_eq_some_iff.mp done
    split at done
    · next may =>
      cases Option.some.inj done
      have mem := List.mem_of_getElem? there
      refine ⟨inv.set there (by rfl) (by rfl) (by rfl) ?_ _,
        (safe_set_iff there safe (by rfl) fun _ => id).trans ⟨?_, ?_⟩⟩
      · intro g holds
        rcases holds with has | copying
        · rcases List.mem_append.mp has with old | new
          · exact inv.own t mem g (.inl old)
          · cases List.mem_singleton.mp new
            exact List.mem_of_getElem? next
        · exact inv.own t mem g (.inr copying)
      · intro full t' f' there' next'
        cases Option.some.inj (there.symm.trans there')
        cases Option.some.inj (next.symm.trans next')
        exact full
      · exact fun careful => careful t f there next
    · exact absurd done (by simp)
  | copied i =>
    obtain ⟨t, there, done⟩ := Option.bind_eq_some_iff.mp done
    obtain ⟨f, copying, done⟩ := Option.bind_eq_some_iff.mp done
    cases Option.some.inj done
    have mem := List.mem_of_getElem? there
    refine ⟨inv.set there (by rfl) (by rfl) (by rfl) ?_ _,
      (safe_set_iff there safe (by rfl) fun g full => ?_).trans ⟨?_, ?_⟩⟩
    · intro g holds
      rcases holds with has | none_
      · rcases List.mem_append.mp has with old | new
        · exact inv.own t mem g (.inl old)
        · cases List.mem_singleton.mp new
          exact inv.own t mem f (.inr copying)
      · exact absurd none_ (by simp)
    · by_cases is_ : g = f
      · subst is_
        simp [full, filled]
      · simp [is_, full]
    · intro full t' f' there' copying' absent
      cases Option.some.inj (there.symm.trans there')
      cases Option.some.inj (copying.symm.trans copying')
      simp [absent, filled] at full
    · intro careful
      have some_ := careful t f there copying
      cases content : s.content f with
      | absent => exact absurd content some_
      | partly => simp [filled]
      | full => simp [filled]
  | finish i =>
    obtain ⟨t, there, done⟩ := Option.bind_eq_some_iff.mp done
    cases Option.some.inj done
    exact finish_step inv safe there

end Steps

theorem idle_inv [DecidableEq C] (o : Setup) (content : Folder C D → Content) : Inv o (idle content) where
  count := fun _ => rfl
  own := fun _ mem => absurd mem List.not_mem_nil

/-- What tests have obtained is there all along a run, exactly if all is done with care. -/
theorem safeRun_iff [DecidableEq C] [DecidableEq D] (o : Setup) (content : Folder C D → Content)
    (actions : List (Action C D)) : SafeRun o (idle content) actions ↔ CarefulRun o (idle content) actions := by
  have from_ : ∀ s : State C D, Inv o s → Safe s → (SafeRun o s actions ↔ CarefulRun o s actions) := by
    induction actions with
    | nil => exact fun s _ safe => iff_of_true safe trivial
    | cons a actions ih =>
      intro s inv safe
      constructor
      · intro run s' done
        obtain ⟨inv', careful⟩ := step_safe inv safe done
        have rest := run.2 s' done
        have safe' : Safe s' := by
          cases actions with
          | nil => exact rest
          | cons a actions => exact rest.1
        exact ⟨careful.mp safe', (ih s' inv' safe').mp rest⟩
      · intro run
        refine ⟨safe, fun s' done => ?_⟩
        obtain ⟨inv', careful⟩ := step_safe inv safe done
        have safe' := careful.mpr (run s' done).1
        exact (ih s' inv' safe').mpr (run s' done).2
  exact from_ (idle content) (idle_inv o content) fun t mem => absurd mem List.not_mem_nil

theorem safe_of_safeRun [DecidableEq C] [DecidableEq D] {o : Setup} {s s' : State C D} {actions : List (Action C D)}
    (safe : SafeRun o s actions) (done : run o s actions = some s') : Safe s' := by
  induction actions generalizing s with
  | nil =>
    cases Option.some.inj done
    exact safe
  | cons a actions ih =>
    obtain ⟨s'', first, rest⟩ := Option.bind_eq_some_iff.mp done
    exact ih (safe.2 s'' first) rest

/-- Two siblings share the export of a cut, and the first one to end removes it; the last one-off test of a cut removes
the features that a test at the same fixed cut has obtained. -/
theorem safeRun_iff_not_always :
    (¬∀ actions : List (Action Nat Nat), SafeRun { task := true, features := false, version := "v1" }
      (idle fun _ => .absent) actions) ∧
    ¬∀ actions : List (Action Nat Nat), SafeRun { task := false, features := true, version := "" }
      (idle fun _ => .absent) actions := by
  constructor
  · intro always
    have safe := safe_of_safeRun (always [.start 5 true none, .start 5 true none, .copy 0, .copied 0, .take 1,
      .finish 0]) rfl
    exact absurd (safe _ List.mem_cons_self (.exported "tmp" 5) List.mem_cons_self) (by decide)
  · intro always
    have safe := safe_of_safeRun (always [.start 7 false none, .copy 0, .copied 0, .copy 0, .copied 0,
      .start 7 true (some 1), .finish 1]) rfl
    exact absurd (safe _ List.mem_cons_self (.features 7) (List.mem_cons_of_mem _ List.mem_cons_self)) (by decide)

end FreeSwarm.Objectives.CutFolders
