import FreeSwarm.Daemon.Checkpoint

/-!
# Runs of the checkpoint manager

One conversion at a time, each cancelled one terminated, and each job with the process and the exit of
its own: what holds in every state that is reached while no start takes the slot too early.
-/

namespace FreeSwarm.Daemon

open FreeSwarm.Foundation

namespace CheckpointManager
variable {Id : Type}

/-! ## What is to hold -/

structure RecordsOwn (job : Job Id) (call : StartCall Id) : Prop where
  id : job.id = call.id
  pid : job.pid = -1 ∨ (call.phase = .recorded ∧ job.pid = call.pid)
  exitCode : job.exitCode = none ∨ job.exitCode = call.exit
  done : job.state = .done → call.exit = some 0
  failed : job.state = .failed → ∃ code ≠ 0, call.exit = some code
  cancelled : call.cancelled = true → job.state = .cancelled
  booked : call.monitor = .done →
    call.exit.isSome ∧ job.exitCode = call.exit ∧ job.state ≠ .running

structure Sound (s : CheckpointManager Id) : Prop where
  one : ∀ (n m : Nat) (a b : StartCall Id), s.calls[n]? = some a → s.calls[m]? = some b →
    a.Alive → b.Alive → n = m
  cancelled : ∀ (n : Nat) (a : StartCall Id), s.calls[n]? = some a → a.cancelled = true →
    a.phase = .recorded ∨ a.phase = .broken → a.terminate ≠ .off
  terminated : ∀ (n : Nat) (a : StartCall Id), s.calls[n]? = some a → a.terminate = .done →
    a.reaped = true ∨ a.killed = true
  own : ∀ job, s.job = some job → ∃ call, s.calls[job.owner]? = some call ∧ RecordsOwn job call

/-- No start takes the slot while the process of an earlier one is still to be recorded, and none takes
it under an identifier whose monitor has yet to record an exit. -/
def Undisturbed [DecidableEq Id] (s : CheckpointManager Id) : CheckpointEvent Id → Prop
  | .start id => (s.start id).1 = .reserved →
      (∀ (n : Nat) (call : StartCall Id), s.calls[n]? = some call → ¬ call.InWindow) ∧
      ∀ (n : Nat) (call : StartCall Id), s.calls[n]? = some call → call.monitor = .reaping →
        call.id ≠ id
  | _ => True

/-! ## The invariant -/

structure CallInv (job : Option (Job Id)) (child : Option Nat) (n : Nat) (call : StartCall Id) :
    Prop where
  window : call.InWindow → child = none ∧ ∃ j, job = some j ∧ j.owner = n ∧ j.pid = -1 ∧
    j.exitCode = none ∧ (j.state = .running ∨ j.state = .cancelled) ∧
    (call.cancelled = true → j.state = .cancelled)
  recorded : call.phase = .recorded → 0 < call.pid ∧ (call.reaped = false → child = some n)
  spawned : call.phase = .spawned → 0 < call.pid
  watched : call.monitor ≠ .off → call.phase = .recorded
  waiting : call.monitor = .waiting → call.reaped = false
  reaping : call.monitor = .reaping → call.reaped = true ∧
    ∀ j, job = some j → j.id = call.id → j.owner = n
  reaped : call.reaped = true → call.phase = .recorded ∧ call.exit.isSome
  unbroken : call.phase ≠ .broken
  cancelled : call.cancelled = true → call.phase = .recorded → call.terminate ≠ .off
  terminated : call.terminate = .done → call.reaped = true ∨ call.killed = true

structure JobInv (child : Option Nat) (job : Job Id) (call : StartCall Id) : Prop where
  id : job.id = call.id
  held : call.InWindow ∨ (call.phase = .recorded ∧ child = some job.owner ∧ job.pid = call.pid)
  exitCode : job.exitCode = none ∨ job.exitCode = call.exit
  done : job.state = .done → call.exit = some 0
  failed : job.state = .failed → ∃ code ≠ 0, call.exit = some code
  cancelled : call.cancelled = true → job.state = .cancelled
  booked : call.monitor = .done →
    call.exit.isSome ∧ job.exitCode = call.exit ∧ job.state ≠ .running

/-- What holds in every state that is reached. -/
structure Inv (s : CheckpointManager Id) : Prop where
  calls : ∀ (n : Nat) (call : StartCall Id), s.calls[n]? = some call → CallInv s.job s.child n call
  child : ∀ n, s.child = some n → ∃ j, s.job = some j ∧ j.owner = n
  job : ∀ j, s.job = some j → ∃ call, s.calls[j.owner]? = some call ∧ JobInv s.child j call

theorem inv_fresh : Inv (fresh : CheckpointManager Id) :=
  ⟨fun n call mem => by simp [fresh] at mem, fun n here => by simp [fresh] at here,
    fun j here => by simp [fresh] at here⟩

variable {calls : List (StartCall Id)} {s : CheckpointManager Id}

theorem Inv.sound (inv : Inv s) : Sound s where
  one n m a b ha hb alive alive' := by
    have child_or_window : ∀ (k : Nat) (c : StartCall Id), s.calls[k]? = some c → c.Alive →
        (c.InWindow ∧ s.child = none) ∨ s.child = some k := by
      intro k c mem alive
      have known := inv.calls k c mem
      rcases alive with ⟨phase | phase | phase, running⟩
      · exact .inl ⟨.inr phase, (known.window (.inr phase)).1⟩
      · refine .inr ((known.recorded phase).2 ?_)
        by_contra reaped
        have exited := (known.reaped (by simpa using reaped)).2
        simp [running] at exited
      · exact absurd phase known.unbroken
    rcases child_or_window n a ha alive with ⟨window, none_⟩ | child
    · rcases child_or_window m b hb alive' with ⟨window', -⟩ | child'
      · obtain ⟨-, j, here, owner, -⟩ := (inv.calls n a ha).window window
        obtain ⟨-, j', here', owner', -⟩ := (inv.calls m b hb).window window'
        cases here.symm.trans here'
        exact owner.symm.trans owner'
      · exact absurd (none_.symm.trans child') (by simp)
    · rcases child_or_window m b hb alive' with ⟨-, none_⟩ | child'
      · exact absurd (none_.symm.trans child) (by simp)
      · exact Option.some.inj (child.symm.trans child')
  cancelled n a mem cancelled phase := by
    have known := inv.calls n a mem
    rcases phase with phase | phase
    · exact known.cancelled cancelled phase
    · exact absurd phase known.unbroken
  terminated n a mem done := (inv.calls n a mem).terminated done
  own j here := by
    obtain ⟨call, mem, known⟩ := inv.job j here
    refine ⟨call, mem, known.id, ?_, known.exitCode, known.done, known.failed, known.cancelled,
      known.booked⟩
    rcases known.held with window | ⟨phase, -, pid⟩
    · obtain ⟨-, j', here', -, pid, -⟩ := (inv.calls _ _ mem).window window
      cases here.symm.trans here'
      exact .inl pid
    · exact .inr ⟨phase, pid⟩

/-! ## The steps -/

variable {call : StartCall Id} {n : Nat} {f : StartCall Id → StartCall Id}

theorem getElem?_modify_some {n m : Nat}
    {c : StartCall Id} (mem : (calls.modify n f)[m]? = some c) :
    (n = m ∧ ∃ before, calls[n]? = some before ∧ c = f before) ∨
      (n ≠ m ∧ calls[m]? = some c) := by
  rw [List.getElem?_modify] at mem
  obtain ⟨before, here, same⟩ := Option.map_eq_some_iff.mp mem
  by_cases eq : n = m
  · refine .inl ⟨eq, before, eq ▸ here, ?_⟩
    rw [← same, if_pos eq]
  · refine .inr ⟨eq, ?_⟩
    rw [← same, if_neg eq]
    exact here

theorem getElem?_modify_ne {n m : Nat} (ne : n ≠ m)
    (f : StartCall Id → StartCall Id) : (calls.modify n f)[m]? = calls[m]? := by
  simp [ne]

theorem getElem?_modify_self
    (here : calls[n]? = some call) (f : StartCall Id → StartCall Id) :
    (calls.modify n f)[n]? = some (f call) := by
  simp [here]

theorem getElem?_concat_some {c last : StartCall Id}
    (mem : (calls ++ [last])[n]? = some c) :
    calls[n]? = some c ∨ (n = calls.length ∧ c = last) := by
  rw [List.getElem?_append] at mem
  split_ifs at mem with below
  · exact .inl mem
  · have at_ : n - calls.length = 0 := by
      by_contra other
      rw [List.getElem?_eq_none (by rw [List.length_singleton]; omega)] at mem
      simp at mem
    rw [at_] at mem
    exact .inr ⟨by omega, (Option.some.inj mem).symm⟩

theorem Inv.modify (inv : Inv s)
    (here : s.calls[n]? = some call)
    (known : CallInv s.job s.child n call → CallInv s.job s.child n (f call))
    (job : ∀ j, s.job = some j → j.owner = n → JobInv s.child j call → JobInv s.child j (f call)) :
    Inv (s.modify n f) where
  calls m c mem := by
    rcases getElem?_modify_some mem with ⟨rfl, before, same, rfl⟩ | ⟨-, mem⟩
    · cases here.symm.trans same
      exact known (inv.calls _ _ here)
    · exact inv.calls m c mem
  child := inv.child
  job j current := by
    obtain ⟨own, mem, ofJob⟩ := inv.job j current
    by_cases eq : n = j.owner
    · subst eq
      cases here.symm.trans mem
      exact ⟨f call, getElem?_modify_self here f, job j current rfl ofJob⟩
    · exact ⟨own, by rw [CheckpointManager.modify, getElem?_modify_ne eq]; exact mem, ofJob⟩

theorem Inv.setJob (inv : Inv s) {j j' : Job Id} (current : s.job = some j)
    (id : j'.id = j.id) (owner : j'.owner = j.owner)
    (known : ∀ call, s.calls[j.owner]? = some call → JobInv s.child j call →
      JobInv s.child j' call ∧ (call.InWindow → j'.pid = -1 ∧ j'.exitCode = none ∧
        (j'.state = .running ∨ j'.state = .cancelled) ∧
        (call.cancelled = true → j'.state = .cancelled))) :
    Inv { s with job := some j' } where
  calls n call mem := by
    have before := inv.calls n call mem
    refine ⟨fun window => ?_, before.recorded, before.spawned, before.watched, before.waiting,
      fun reaping => ⟨(before.reaping reaping).1, fun k same own => ?_⟩, before.reaped,
      before.unbroken, before.cancelled, before.terminated⟩
    · obtain ⟨child, k, current', held, -⟩ := before.window window
      cases current.symm.trans current'
      obtain ⟨call', mem', ofJob⟩ := inv.job j current
      rw [held] at mem'
      cases mem.symm.trans mem'
      obtain ⟨pid, exitCode, state, cancelled⟩ := (known call (held ▸ mem) ofJob).2 window
      exact ⟨child, j', rfl, owner.trans held, pid, exitCode, state, cancelled⟩
    · cases same
      exact owner.trans ((before.reaping reaping).2 j current (id.symm.trans own))
  child n here := by
    obtain ⟨k, current', held⟩ := inv.child n here
    cases current.symm.trans current'
    exact ⟨j', rfl, owner.trans held⟩
  job k same := by
    cases same
    obtain ⟨call, mem, ofJob⟩ := inv.job j current
    exact ⟨call, owner ▸ mem, (known call mem ofJob).1⟩

theorem Inv.reserve [DecidableEq Id] {s : CheckpointManager Id} (inv : Inv s) {id : Id}
    (gone : ¬ s.child.any (fun n => !s.isReaped n) = true)
    (quiet : ∀ (n : Nat) (call : StartCall Id), s.calls[n]? = some call → ¬ call.InWindow)
    (booked : ∀ (n : Nat) (call : StartCall Id), s.calls[n]? = some call → call.monitor = .reaping →
      call.id ≠ id) :
    Inv { job := some { id := id, pid := -1, state := .running, exitCode := none
                        owner := s.calls.length }
          child := none, calls := s.calls ++ [.reserve id] } where
  calls n call mem := by
    rcases getElem?_concat_some mem with mem | ⟨rfl, rfl⟩
    · have known := inv.calls n call mem
      refine ⟨fun window => absurd window (quiet n call mem), fun phase => ?_, known.spawned,
        known.watched, known.waiting,
        fun reaping => ⟨(known.reaping reaping).1, fun j current same => ?_⟩, known.reaped,
        known.unbroken, known.cancelled, known.terminated⟩
      · refine ⟨(known.recorded phase).1, fun unreaped => absurd ?_ gone⟩
        rw [(known.recorded phase).2 unreaped]
        simp [isReaped, mem, unreaped]
      · cases current
        exact absurd same.symm (booked n call mem reaping)
    · exact
        { window := fun _ => ⟨rfl, _, rfl, rfl, rfl, rfl, .inl rfl, fun cancelled => by
            simp [StartCall.reserve] at cancelled⟩
          recorded := fun phase => by simp [StartCall.reserve] at phase
          spawned := fun phase => by simp [StartCall.reserve] at phase
          watched := fun monitor => absurd rfl monitor
          waiting := fun _ => rfl
          reaping := fun monitor => by simp [StartCall.reserve] at monitor
          reaped := fun reaped => by simp [StartCall.reserve] at reaped
          unbroken := by simp [StartCall.reserve]
          cancelled := fun cancelled => by simp [StartCall.reserve] at cancelled
          terminated := fun done => by simp [StartCall.reserve] at done }
  child n none_ := by simp at none_
  job j current := by
    cases current
    refine ⟨.reserve id, by simp, rfl, .inl (.inl rfl), .inl rfl, fun done => ?_, fun failed => ?_,
      fun cancelled => ?_, fun booked => ?_⟩
    · simp at done
    · simp at failed
    · simp [StartCall.reserve] at cancelled
    · simp [StartCall.reserve] at booked

theorem Inv.start [DecidableEq Id] {s : CheckpointManager Id} (inv : Inv s) {id : Id}
    (undisturbed : s.Undisturbed (.start id)) : Inv (s.start id).2 := by
  have admitted : (s.admitStart id).1 = (s.start id).1 → Inv (s.admitStart id).2 := by
    intro same
    unfold admitStart at same ⊢
    split_ifs at same ⊢ with gone
    · exact inv
    · obtain ⟨quiet, booked⟩ := undisturbed same.symm
      exact inv.reserve gone quiet booked
  unfold CheckpointManager.start at admitted ⊢
  match current : s.job with
  | none =>
    rw [current] at admitted
    exact admitted rfl
  | some job =>
    rw [current] at admitted
    simp only at admitted ⊢
    by_cases running : job.state = .running
    · rw [if_pos running]
      by_cases same : job.id = id
      · rw [if_pos same]
        exact inv
      · rw [if_neg same]
        exact inv
    · rw [if_neg running] at admitted ⊢
      exact admitted rfl

theorem Inv.spawnFails [DecidableEq Id] {s : CheckpointManager Id} (inv : Inv s)
    (here : s.calls[n]? = some call) (spawning : call.phase = .spawning) :
    Inv ((s.modify n fun call => { call with phase := .failed }).release call.id) := by
  have known := inv.calls n call here
  obtain ⟨child, j, current, owner, -⟩ := known.window (.inl spawning)
  have same : j.id = call.id := by
    obtain ⟨own, mem, ofJob⟩ := inv.job j current
    rw [owner] at mem
    cases here.symm.trans mem
    exact ofJob.id
  have released : (s.modify n fun call => { call with phase := .failed }).release call.id =
      { job := none, child := s.child
        calls := s.calls.modify n fun call => { call with phase := .failed } } := by
    simp [release, CheckpointManager.modify, current, same]
  rw [released]
  refine ⟨fun m c mem => ?_, fun m other => ?_, fun j' none_ => by simp at none_⟩
  · rcases getElem?_modify_some mem with ⟨rfl, before, same', rfl⟩ | ⟨ne, mem⟩
    · cases here.symm.trans same'
      refine ⟨fun window => ?_, fun phase => by simp at phase, fun phase => by simp at phase,
        fun monitor => ?_, known.waiting,
        fun reaping => ⟨(known.reaping reaping).1, fun j' none_ => by simp at none_⟩,
        fun reaped => ?_, by simp,
        fun _ phase => by simp at phase, known.terminated⟩
      · rcases window with phase | phase <;> simp at phase
      · exact absurd (spawning.symm.trans (known.watched monitor)) (by simp)
      · exact absurd (spawning.symm.trans (known.reaped reaped).1) (by simp)
    · have other := inv.calls m c mem
      refine ⟨fun window => ?_, other.recorded, other.spawned, other.watched, other.waiting,
        fun reaping => ⟨(other.reaping reaping).1, fun j' none_ => by simp at none_⟩, other.reaped,
        other.unbroken, other.cancelled, other.terminated⟩
      obtain ⟨-, j', current', owner', -⟩ := other.window window
      cases current.symm.trans current'
      exact absurd (owner.symm.trans owner') ne
  · exact absurd (child.symm.trans other) (by simp)

theorem Inv.record [DecidableEq Id] {s : CheckpointManager Id} (inv : Inv s)
    (here : s.calls[n]? = some call) (spawned : call.phase = .spawned) :
    Inv (s.record n call.pid) := by
  have known := inv.calls n call here
  obtain ⟨child, j, current, owner, pid, exitCode, state, cancelled⟩ := known.window (.inr spawned)
  subst owner
  obtain ⟨own, mem, ofJob⟩ := inv.job j current
  cases here.symm.trans mem
  -- The terminate sequence begins at once when the job was cancelled during the spawn.
  set f : StartCall Id → StartCall Id := fun call => { call with
    phase := .recorded, monitor := .waiting
    terminate := if j.state = .cancelled ∧ call.terminate = .off then .begun else call.terminate }
    with behind
  have recorded : s.record j.owner call.pid =
      { job := some { j with pid := call.pid }, child := some j.owner
        calls := s.calls.modify j.owner f } := by
    unfold CheckpointManager.record
    rw [current]
    by_cases stopped : j.state = .cancelled
    · have both : (fun call : StartCall Id =>
          if call.terminate = .off then { call with terminate := .begun } else call) ∘
            (fun call => { call with phase := .recorded, monitor := .waiting }) = f := by
        funext c
        by_cases off : c.terminate = .off <;> simp [off, stopped, behind]
      simp only [stopped, if_true, beginTerminate, CheckpointManager.modify, List.modify_modify_eq,
        both]
    · simp [stopped, CheckpointManager.modify, behind]
  rw [recorded]
  refine ⟨fun m c mem => ?_, fun m other => ?_, fun j' same => ?_⟩
  · rcases getElem?_modify_some mem with ⟨rfl, before, same', rfl⟩ | ⟨ne, mem⟩
    · cases here.symm.trans same'
      exact
        { window := fun window => by rcases window with phase | phase <;> simp [behind] at phase
          recorded := fun _ => ⟨known.spawned spawned, fun _ => rfl⟩
          spawned := fun phase => by simp [behind] at phase
          watched := fun _ => rfl
          waiting := fun _ => by
            by_contra reaped
            have phase := (known.reaped (by simpa [behind] using reaped)).1
            exact absurd (spawned.symm.trans phase) (by simp)
          reaping := fun monitor => by simp [behind] at monitor
          reaped := fun reaped => ⟨rfl, (known.reaped reaped).2⟩
          unbroken := by simp [behind]
          cancelled := fun stopped _ => by
            by_cases off : call.terminate = .off <;> simp [behind, off, cancelled stopped]
          terminated := fun done => known.terminated (by
            by_cases off : call.terminate = .off
            · simp only [behind, off, and_true] at done
              split_ifs at done
            · simpa [behind, off] using done) }
    · have other := inv.calls m c mem
      refine ⟨fun window => ?_, fun phase => ⟨(other.recorded phase).1, fun unreaped => ?_⟩,
        other.spawned, other.watched, other.waiting,
        fun reaping => ⟨(other.reaping reaping).1, fun j' same id => ?_⟩, other.reaped,
        other.unbroken, other.cancelled, other.terminated⟩
      · obtain ⟨-, j', current', owner, -⟩ := other.window window
        cases current.symm.trans current'
        exact absurd owner ne
      · exact absurd (child.symm.trans ((other.recorded phase).2 unreaped)) (by simp)
      · cases same
        exact (other.reaping reaping).2 j current id
  · cases other
    exact ⟨_, rfl, rfl⟩
  · cases same
    refine ⟨f call, getElem?_modify_self here f, ofJob.id, .inr ⟨rfl, rfl, rfl⟩, ofJob.exitCode,
      ofJob.done, ofJob.failed, ofJob.cancelled, fun booked => by simp [behind] at booked⟩

theorem Inv.book [DecidableEq Id] {s : CheckpointManager Id} (inv : Inv s)
    (here : s.calls[n]? = some call) (reaping : call.monitor = .reaping) :
    Inv ((s.modify n fun call => { call with monitor := .done }).book call.id call.exit) := by
  have known := inv.calls n call here
  have phase := known.watched (by simp [reaping])
  obtain ⟨gone, own⟩ := known.reaping reaping
  obtain ⟨code, exit⟩ := Option.isSome_iff_exists.mp (known.reaped gone).2
  have commutes : (s.modify n fun call => { call with monitor := .done }).book call.id call.exit =
      (s.book call.id call.exit).modify n fun call => { call with monitor := .done } := by
    unfold CheckpointManager.book
    match current : s.job with
    | none => simp [CheckpointManager.modify, current]
    | some j =>
      by_cases same : j.id = call.id <;> simp [CheckpointManager.modify, current, same]
  have calls : (s.book call.id call.exit).calls = s.calls := by
    unfold CheckpointManager.book
    match current : s.job with
    | none => rfl
    | some j => by_cases same : j.id = call.id <;> simp [same]
  have written : ∀ j, (s.book call.id call.exit).job = some j → j.id = call.id →
      j.exitCode = call.exit ∧ j.state ≠ .running := by
    intro j' current' same'
    unfold CheckpointManager.book at current'
    match current : s.job with
    | none => simp [current] at current'
    | some j =>
      by_cases same : j.id = call.id
      · simp only [current, if_pos same] at current'
        obtain rfl := Option.some.inj current'
        refine ⟨rfl, ?_⟩
        by_cases stopped : j.state = .cancelled
        · simp [stopped]
        · by_cases zero : call.exit = some 0 <;> simp [stopped, zero]
      · simp only [current, if_neg same] at current'
        obtain rfl := Option.some.inj current'
        exact absurd same' same
  have booked : Inv (s.book call.id call.exit) := by
    unfold CheckpointManager.book
    match current : s.job with
    | none => simpa only [current] using inv
    | some j =>
      by_cases same : j.id = call.id
      · simp only [if_pos same]
        have owner := own j current same
        refine inv.setJob (j := j) current rfl rfl fun c mem ofJob => ?_
        rw [owner] at mem
        obtain rfl : c = call := Option.some.inj (mem.symm.trans here)
        refine ⟨⟨ofJob.id, ofJob.held, .inr rfl, fun done => ?_, fun failed => ?_,
          fun cancelled => ?_, fun other => ?_⟩, fun window => ?_⟩
        · by_contra other
          by_cases stopped : j.state = .cancelled <;> simp_all
        · refine ⟨code, fun zero => ?_, exit⟩
          by_cases stopped : j.state = .cancelled <;> simp_all
        · exact if_pos (ofJob.cancelled cancelled)
        · exact absurd (reaping.symm.trans other) (by simp)
        · rcases window with window | window <;> exact absurd (phase.symm.trans window) (by simp)
      · simp only [if_neg same]
        exact inv
  rw [commutes]
  refine booked.modify (calls ▸ here) (fun known => ?_) fun j current _ ofJob => ?_
  · exact ⟨known.window, known.recorded, known.spawned, fun _ => phase,
      fun waiting => by simp at waiting, fun reaping => by simp at reaping, known.reaped,
      known.unbroken, known.cancelled, known.terminated⟩
  · exact ⟨ofJob.id, ofJob.held, ofJob.exitCode, ofJob.done, ofJob.failed, ofJob.cancelled,
      fun _ => ⟨(known.reaped gone).2, written j current ofJob.id⟩⟩

theorem Inv.cancel [DecidableEq Id] {s : CheckpointManager Id} (inv : Inv s) (id : Id) :
    Inv (s.cancel id).2 := by
  unfold CheckpointManager.cancel
  match current : s.job with
  | none => exact inv
  | some j =>
    by_cases idle : j.id ≠ id ∨ j.state ≠ .running
    · simp only [if_pos idle]
      exact inv
    simp only [if_neg idle]
    obtain ⟨call, here, ofJob⟩ := inv.job j current
    have stopped : Inv { s with job := some { j with state := .cancelled } } := by
      refine inv.setJob (j := j) current rfl rfl fun c mem ofJob => ?_
      refine ⟨⟨ofJob.id, ofJob.held, ofJob.exitCode, fun done => by simp at done,
        fun failed => by simp at failed, fun _ => rfl,
        fun booked => ⟨(ofJob.booked booked).1, (ofJob.booked booked).2.1, by simp⟩⟩, fun window => ?_⟩
      obtain ⟨-, k, current', -, pid, exitCode, -⟩ := (inv.calls _ c mem).window window
      cases current.symm.trans current'
      exact ⟨pid, exitCode, .inr rfl, fun _ => rfl⟩
    -- The job is that of the child, or the child is still to come.
    match child : s.child with
    | none =>
      rw [child] at stopped
      refine stopped.modify (n := j.owner) here (fun known => ?_) fun j' same _ ofJob' => ?_
      · refine ⟨fun window => ?_, known.recorded, known.spawned, known.watched, known.waiting,
          known.reaping, known.reaped, known.unbroken, fun _ phase => ?_, known.terminated⟩
        · obtain ⟨none_, k, current', held, pid, exitCode, state, -⟩ := known.window window
          obtain rfl := Option.some.inj current'
          exact ⟨none_, _, rfl, held, pid, exitCode, state, fun _ => rfl⟩
        · rcases ofJob.held with window | ⟨-, other, -⟩
          · rcases window with window | window <;> exact absurd (phase.symm.trans window) (by simp)
          · exact absurd (child.symm.trans other) (by simp)
      · cases same
        exact ⟨ofJob'.id, ofJob'.held, ofJob'.exitCode, ofJob'.done, ofJob'.failed, fun _ => rfl,
          ofJob'.booked⟩
    | some n =>
      obtain ⟨k, current', rfl⟩ := inv.child n child
      cases current.symm.trans current'
      have known := inv.calls _ call here
      have notWindow : ¬ call.InWindow := fun window =>
        absurd ((known.window window).1.symm.trans child) (by simp)
      obtain ⟨phase, -, pid⟩ := ofJob.held.resolve_left notWindow
      simp only [if_pos (show 0 < j.pid from pid ▸ (known.recorded phase).1)]
      rw [child] at stopped
      set f : StartCall Id → StartCall Id := fun call => { call with
        cancelled := true, terminate := if call.terminate = .off then .begun else call.terminate }
        with behind
      have both : (fun call : StartCall Id =>
          if call.terminate = .off then { call with terminate := .begun } else call) ∘
            (fun call => { call with cancelled := true }) = f := by
        funext c
        by_cases off : c.terminate = .off <;> simp [off, behind]
      simp only [beginTerminate, CheckpointManager.modify, List.modify_modify_eq, both]
      refine stopped.modify (n := j.owner) here (fun known => ?_) fun j' same _ ofJob' => ?_
      · refine ⟨fun window => absurd window notWindow, known.recorded, known.spawned, known.watched,
          known.waiting, known.reaping, known.reaped, known.unbroken, fun _ _ => ?_,
          fun done => known.terminated ?_⟩
        · by_cases off : call.terminate = .off <;> simp [behind, off]
        · by_cases off : call.terminate = .off
          · simp [behind, off] at done
          · simpa [behind, off] using done
      · cases same
        exact ⟨ofJob'.id, ofJob'.held, ofJob'.exitCode, ofJob'.done, ofJob'.failed, fun _ => rfl,
          ofJob'.booked⟩

theorem Inv.step [DecidableEq Id] {s s' : CheckpointManager Id} (inv : Inv s)
    {ev : CheckpointEvent Id} (undisturbed : s.Undisturbed ev) (taken : s.step ev = some s') :
    Inv s' := by
  match ev with
  | .start id =>
    cases taken
    exact inv.start undisturbed
  | .cancel id =>
    cases taken
    exact inv.cancel id
  | .spawn n pid =>
    obtain ⟨call, here, ⟨spawning, positive⟩, rfl⟩ := exists_of_guarded taken
    refine inv.modify here (fun known => ?_) fun j _ _ ofJob => ?_
    · refine ⟨fun _ => known.window (.inl spawning), fun phase => by simp at phase,
        fun _ => positive, fun monitor => ?_, known.waiting, known.reaping, fun reaped => ?_, by simp,
        fun _ phase => by simp at phase, known.terminated⟩
      · exact absurd (spawning.symm.trans (known.watched monitor)) (by simp)
      · exact absurd (spawning.symm.trans (known.reaped reaped).1) (by simp)
    · exact ⟨ofJob.id, .inl (.inr rfl), ofJob.exitCode, ofJob.done, ofJob.failed, ofJob.cancelled,
        ofJob.booked⟩
  | .spawnFails n =>
    obtain ⟨call, here, spawning, rfl⟩ := exists_of_guarded taken
    exact inv.spawnFails here spawning
  | .record n =>
    obtain ⟨call, here, spawned, rfl⟩ := exists_of_guarded taken
    exact inv.record here spawned
  | .exit n code =>
    obtain ⟨call, here, ⟨-, running⟩, rfl⟩ := exists_of_guarded taken
    refine inv.modify here (fun known => ?_) fun j _ _ ofJob => ?_
    · exact ⟨known.window, known.recorded, known.spawned, known.watched, known.waiting,
        known.reaping, fun reaped => ⟨(known.reaped reaped).1, rfl⟩, known.unbroken, known.cancelled,
        known.terminated⟩
    · refine ⟨ofJob.id, ofJob.held, .inl ?_, fun done => ?_, fun failed => ?_, ofJob.cancelled,
        fun booked => ?_⟩
      · rcases ofJob.exitCode with none_ | same
        · exact none_
        · exact same.trans running
      · exact absurd (running.symm.trans (ofJob.done done)) (by simp)
      · obtain ⟨other, -, exit⟩ := ofJob.failed failed
        exact absurd (running.symm.trans exit) (by simp)
      · exact absurd (ofJob.booked booked).1 (by simp [running])
  | .reap n =>
    obtain ⟨call, here, ⟨waiting, exited⟩, rfl⟩ := exists_of_guarded taken
    have phase := (inv.calls n call here).watched (by simp [waiting])
    refine inv.modify here (fun known => ?_) fun j _ _ ofJob => ?_
    · refine ⟨known.window, fun _ => ⟨(known.recorded phase).1, fun reaped => by simp at reaped⟩,
        known.spawned, fun _ => phase, fun monitor => by simp at monitor,
        fun _ => ⟨rfl, fun j current _ => ?_⟩, fun _ => ⟨phase, exited⟩, known.unbroken,
        known.cancelled, fun _ => .inl rfl⟩
      obtain ⟨k, current', owner⟩ := inv.child n
        ((known.recorded phase).2 (known.waiting waiting))
      cases current.symm.trans current'
      exact owner
    · exact ⟨ofJob.id, ofJob.held, ofJob.exitCode, ofJob.done, ofJob.failed, ofJob.cancelled,
        fun booked => by simp at booked⟩
  | .book n =>
    obtain ⟨call, here, reaping, rfl⟩ := exists_of_guarded taken
    exact inv.book here reaping
  | .terminate n =>
    obtain ⟨call, here, begun, rfl⟩ := exists_of_guarded taken
    refine inv.modify here (fun known => ?_) fun j _ _ ofJob => ?_
    · exact ⟨known.window, known.recorded, known.spawned, known.watched, known.waiting,
        known.reaping, known.reaped, known.unbroken, fun _ _ => by simp, fun done => by simp at done⟩
    · exact ⟨ofJob.id, ofJob.held, ofJob.exitCode, ofJob.done, ofJob.failed, ofJob.cancelled,
        ofJob.booked⟩
  | .escalate n =>
    obtain ⟨call, here, asked, rfl⟩ := exists_of_guarded taken
    refine inv.modify here (fun known => ?_) fun j _ _ ofJob => ?_
    · refine ⟨known.window, known.recorded, known.spawned, known.watched, known.waiting,
        known.reaping, known.reaped, known.unbroken, fun _ _ => by simp, fun _ => ?_⟩
      show call.reaped = true ∨ (!call.reaped) = true
      cases call.reaped <;> simp
    · exact ⟨ofJob.id, ofJob.held, ofJob.exitCode, ofJob.done, ofJob.failed, ofJob.cancelled,
        ofJob.booked⟩

/-- While no start takes the slot too early, every state that is reached is sound. -/
theorem conversion_sound [DecidableEq Id] {s : CheckpointManager Id}
    (reached : Reachable Undisturbed s) : Sound s :=
  (reached.invariant Inv inv_fresh fun _ _ _ inv undisturbed taken => inv.step undisturbed taken).sound

/-- A conversion that is cancelled while it runs. -/
theorem conversion_sound_cancelled :
    ∃ s : CheckpointManager Nat, Reachable Undisturbed s ∧
      s.job.map (fun job => (job.pid, job.state, job.exitCode)) = some (100, .cancelled, some 15) ∧
      Sound s := by
  have reserved : Reachable Undisturbed (fresh.start 7).2 := by
    have quiet : Undisturbed (fresh : CheckpointManager Nat) (.start 7) :=
      fun _ => ⟨fun n call mem => by simp [fresh] at mem, fun n call mem => by simp [fresh] at mem⟩
    exact .step .refl quiet rfl
  have cancelled := reserved.run
    [.spawn 0 100, .record 0, .cancel 7, .terminate 0, .exit 0 15, .reap 0, .book 0, .escalate 0]
    (by simp [Undisturbed]) rfl
  exact ⟨_, cancelled, rfl, conversion_sound cancelled⟩

/-- A start behind a cancel whose process is not recorded yet gives two processes, and the cancelled
one is never terminated. -/
theorem unsound_of_early_start : ∃ s : CheckpointManager Nat, Reachable Always s ∧ ¬ Sound s := by
  have begins : Reachable Always (fresh : CheckpointManager Nat) := .refl
  have reached := begins.run
    [.start 7, .cancel 7, .start 8, .spawn 0 100, .spawn 1 101, .record 0]
    (fun _ _ _ => trivial) rfl
  refine ⟨_, reached, fun sound => ?_⟩
  have same := sound.one 0 1 _ _ rfl rfl ⟨.inr (.inl rfl), rfl⟩ ⟨.inl rfl, rfl⟩
  simp at same

end CheckpointManager

end FreeSwarm.Daemon
