import FreeSwarm.Daemon.ServeManager

/-!
# Runs of the supervisor

At most one engine at a time, each reaped once, and none behind a stop: what holds in every state that is
reached. While no client starts an engine before the restart of a crashed one is settled, a restart
launches what has crashed and nothing else.
-/

namespace FreeSwarm.Daemon

open FreeSwarm.Foundation

/-! ## The monitor -/

namespace WatchPhase

/-- The engine has not been removed. -/
def held : WatchPhase → Bool
  | .off | .waiting | .sampled _ _ => true
  | _ => false

def isReaped : WatchPhase → Bool
  | .reaped _ _ | .restarting | .done => true
  | _ => false

/-- A crash was booked, and it is not decided yet what becomes of it. -/
def pending : WatchPhase → Bool
  | .cleared wasStopping isCurrent | .reaped wasStopping isCurrent => !wasStopping && isCurrent
  | .restarting => true
  | _ => false

end WatchPhase

/-- Nothing is being stopped or started. -/
def Holder.restful {Config : Type} : Option (Holder Config) → Bool
  | none | some (.resume _) => true
  | _ => false

def Holder.launching {Config : Type} : Option (Holder Config) → Bool
  | some (.spawn _ _) | some (.record _) | some (.watch _) => true
  | _ => false

namespace ServeManager
variable {Config : Type}

/-! ## What is to hold -/

/-- A restart has launched the configuration of the engine before, on whose crash there was no command
of a client. -/
structure Restarted (engines : List (Engine Config)) (e : Engine Config) (n trigger : Nat) :
    Prop where
  next : trigger + 1 = n
  crashed : ∃ dead, engines[trigger]? = some dead ∧ dead.config = e.config ∧
    dead.crashed = some e.launched

variable (s : ServeManager Config)

structure Safe : Prop where
  one : ∀ (n m : Nat) (a b : Engine Config), s.engines[n]? = some a → s.engines[m]? = some b →
    a.exited = false → b.exited = false → n = m
  reaps : ∀ (n : Nat) (e : Engine Config), s.engines[n]? = some e →
    e.reaps = (if e.monitor.isReaped then 1 else 0) ∧ (0 < e.reaps → e.exited = true)
  stopped : s.stopped = true → ∀ (n : Nat) (e : Engine Config), s.engines[n]? = some e →
    e.exited = true
  closed : s.closed = true → ∀ (n : Nat) (e : Engine Config), s.engines[n]? = some e →
    e.exited = true

structure Sound : Prop extends Safe s where
  restarts : ∀ (n trigger : Nat) (e : Engine Config), s.engines[n]? = some e →
    e.origin = .restart trigger → Restarted s.engines e n trigger

/-- The restart of a crashed engine is not settled yet. -/
def RestartPending : Prop :=
  s.restarts ≠ [] ∨ (s.autoRestart = true ∧
    ∃ (n : Nat) (e : Engine Config), s.engines[n]? = some e ∧ e.monitor.pending = true)

/-- No start of a client is admitted while the restart of a crashed engine is not settled. -/
def Undisturbed : ServeEvent Config → Prop
  | .start _ | .resume => s.shutdownRequested = false → ¬ s.RestartPending
  | _ => True

/-! ## The invariant -/

structure EngineInv (child : Option Nat) (holder : Option (Holder Config)) (n : Nat)
    (e : Engine Config) : Prop where
  alive : e.exited = false → child = some n ∨ holder = some (.record n)
  held : e.monitor.held = true → child = some n ∨ holder = some (.record n)
  exited : e.monitor ≠ .off → e.monitor ≠ .waiting → e.exited = true
  reaps : e.reaps = if e.monitor.isReaped then 1 else 0
  crashed : e.crashed.isSome → e.monitor.held = false

/-- What is known of the transaction that holds the lock. -/
def HolderInv : Prop :=
  match s.holder with
  | none => s.starting = false ∧ s.stopping = false
  | some (.prepare n goal) | some (.signal n goal) | some (.asked n goal) | some (.killed n goal) =>
    s.starting = false ∧ s.stopRequested = true ∧
      (goal = .shutdown → s.shutdownRequested = true) ∧
      (s.child = some n ∨ (s.child = none ∧ s.stopping = false))
  | some (.resume _) => s.starting = false ∧ s.stopping = false ∧ s.child = none
  | some (.spawn _ _) => s.starting = true ∧ s.stopping = false ∧ s.child = none
  | some (.record n) => s.starting = true ∧ s.stopping = false ∧ s.child = none ∧
      ∃ e, s.engines[n]? = some e ∧ e.monitor = .off
  | some (.watch n) => s.starting = false ∧ s.stopping = false ∧ s.child = some n ∧
      ∃ e, s.engines[n]? = some e ∧ e.monitor = .off

/-- What holds in every state that is reached. -/
structure Inv : Prop where
  engines : ∀ (n : Nat) (e : Engine Config), s.engines[n]? = some e →
    EngineInv s.child s.holder n e
  child : ∀ n, s.child = some n → ∃ e, s.engines[n]? = some e ∧ e.monitor.held = true
  holder : s.HolderInv
  stopped : s.stopped = true → s.child = none ∧ s.stopRequested = true ∧ Holder.restful s.holder = true
  closed : s.closed = true → s.child = none ∧ s.shutdownRequested = true ∧
    Holder.restful s.holder = true

variable {s : ServeManager Config} {engines : List (Engine Config)}

theorem Inv.safe (inv : Inv s) : Safe s where
  one n m a b here there alive alive' := by
    have first := (inv.engines n a here).alive alive
    have second := (inv.engines m b there).alive alive'
    have transaction := inv.holder
    unfold HolderInv at transaction
    grind
  reaps n e here := by
    have known := inv.engines n e here
    refine ⟨known.reaps, fun positive => known.exited ?_ ?_⟩
    · intro off
      rw [known.reaps, off] at positive
      simp [WatchPhase.isReaped] at positive
    · intro waiting
      rw [known.reaps, waiting] at positive
      simp [WatchPhase.isReaped] at positive
  stopped stopped n e here := by
    obtain ⟨child, -, restful⟩ := inv.stopped stopped
    by_contra alive
    rcases (inv.engines n e here).alive (by simpa using alive) with same | record
    · simp [child] at same
    · simp [record, Holder.restful] at restful
  closed closed n e here := by
    obtain ⟨child, -, restful⟩ := inv.closed closed
    by_contra alive
    rcases (inv.engines n e here).alive (by simpa using alive) with same | record
    · simp [child] at same
    · simp [record, Holder.restful] at restful

theorem inv_boot (autoRestart : Bool) (adopted : Option (Config × Int × Option Int)) :
    Inv (boot autoRestart adopted) := by
  match adopted with
  | none =>
    refine ⟨fun n e here => by simp [boot] at here, fun n here => by simp [boot] at here,
      ⟨rfl, rfl⟩, fun stopped => by simp [boot] at stopped, fun closed => by simp [boot] at closed⟩
  | some found =>
    refine ⟨fun n e here => ?_, fun n here => ?_, ⟨rfl, rfl⟩, fun stopped => by simp [boot] at stopped,
      fun closed => by simp [boot] at closed⟩
    · match n with
      | 0 =>
        cases here
        exact ⟨fun _ => .inl rfl, fun _ => .inl rfl, fun _ other => absurd rfl other, rfl,
          fun crashed => by simp [Engine.spawned] at crashed⟩
      | n + 1 => simp [boot] at here
    · cases here
      exact ⟨_, rfl, rfl⟩

/-! ## The steps -/

variable {f : Engine Config → Engine Config} {n : Nat} {e : Engine Config} {origin : Origin}

theorem getElem?_modify_some {n m : Nat}
    {c : Engine Config}
    (mem : (engines.modify n f)[m]? = some c) :
    (n = m ∧ ∃ before, engines[n]? = some before ∧ c = f before) ∨
      (n ≠ m ∧ engines[m]? = some c) := by
  rw [List.getElem?_modify] at mem
  obtain ⟨before, here, same⟩ := Option.map_eq_some_iff.mp mem
  grind

theorem getElem?_modify_self
    (here : engines[n]? = some e) (f : Engine Config → Engine Config) :
    (engines.modify n f)[n]? = some (f e) := by
  simp [here]

theorem Inv.modify (inv : Inv s)
    (here : s.engines[n]? = some e)
    (known : EngineInv s.child s.holder n e → EngineInv s.child s.holder n (f e))
    (held : e.monitor.held = true → (f e).monitor.held = true)
    (off : s.holder = none ∨ (e.monitor = .off → (f e).monitor = .off)) : Inv (s.modify n f) where
  engines m c mem := by
    rcases getElem?_modify_some mem with ⟨rfl, before, same, rfl⟩ | ⟨-, mem⟩
    · cases here.symm.trans same
      exact known (inv.engines _ _ here)
    · exact inv.engines m c mem
  child m current := by
    obtain ⟨c, mem, heldC⟩ := inv.child m current
    unfold ServeManager.modify
    grind
  holder := by
    have transaction := inv.holder
    unfold HolderInv at transaction ⊢
    unfold ServeManager.modify
    grind
  stopped := inv.stopped
  closed := inv.closed

theorem Inv.goOn {s s' : ServeManager Config} (inv : Inv s) (child : s'.child = s.child)
    (engines : s'.engines = s.engines)
    (record : ∀ n, s.holder = some (.record n) → s'.holder = some (.record n)) (holder : HolderInv s')
    (stopped : s'.stopped = true → s.child = none ∧ s'.stopRequested = true ∧
      Holder.restful s'.holder = true)
    (closed : s'.closed = true → s.child = none ∧ s'.shutdownRequested = true ∧
      Holder.restful s'.holder = true) : Inv s' where
  engines n e here := by
    rw [engines] at here
    have known := inv.engines n e here
    rw [child]
    exact ⟨fun alive => (known.alive alive).imp_right (record n),
      fun held => (known.held held).imp_right (record n), known.exited, known.reaps, known.crashed⟩
  child n current := by
    rw [engines]
    exact inv.child n (child ▸ current)
  holder := holder
  stopped := child ▸ stopped
  closed := child ▸ closed

theorem Inv.enter [DecidableEq Config] {s : ServeManager Config} (inv : Inv s)
    (free : s.holder = none) (stopped : s.stopped = true → origin ≠ .client)
    (closed : s.closed = false) (config : Config) : Inv (s.enter config origin).2 := by
  have transaction := inv.holder
  simp only [HolderInv, free] at transaction
  unfold ServeManager.enter
  split_ifs with running same unwanted
  · exact inv
  · exact inv
  · exact inv
  · refine inv.goOn rfl rfl (fun n record => by simp [free] at record) ?_ (fun returned => ?_)
      (fun shut => by simp [closed] at shut)
    · have child : s.child = none := by
        by_contra some_
        exact running ⟨Option.isSome_iff_ne_none.mpr some_, transaction.2⟩
      exact ⟨rfl, transaction.2, child⟩
    · have latched := (inv.stopped returned).2.1
      exact absurd ⟨stopped returned, latched⟩ unwanted

theorem Inv.start [DecidableEq Config] {s : ServeManager Config} (inv : Inv s)
    (free : s.holder = none) (config : Config) : Inv (s.start config).2 := by
  have transaction := inv.holder
  simp only [HolderInv, free] at transaction
  unfold ServeManager.start
  split_ifs with shut
  · exact inv
  · have closed : s.closed = false := by
      by_contra closed
      exact shut (inv.closed (by simpa using closed)).2.1
    have admitted : Inv { s with
        stopRequested := false, stopped := false, commands := s.commands + 1 } := by
      refine inv.goOn rfl rfl (fun n record => by simp [free] at record) ?_
        (fun stopped => by simp at stopped) (fun shut => by simp [closed] at shut)
      simp only [HolderInv, free]
      exact transaction
    exact admitted.enter free (fun stopped => by simp at stopped) closed config

theorem Inv.autoStart [DecidableEq Config] {s : ServeManager Config} (inv : Inv s)
    (free : s.holder = none) (config : Config) (trigger : Nat) :
    Inv (s.autoStart config trigger).2 := by
  unfold ServeManager.autoStart
  split_ifs with unwanted
  · exact inv
  · refine inv.enter free (fun _ => by simp) ?_ config
    by_contra closed
    exact unwanted (.inl (inv.closed (by simpa using closed)).2.1)

theorem Inv.stopReturns (inv : Inv s) (child : s.child = none)
    (latched : s.stopRequested = true) (starting : s.starting = false) (stopping : s.stopping = false)
    (goal : StopGoal Config) (shut : goal = .shutdown → s.shutdownRequested = true)
    (record : ∀ n, s.holder ≠ some (.record n)) : Inv (s.stopReturns goal) := by
  have shutting := inv.closed
  cases goal with
  | stop =>
    refine inv.goOn rfl rfl (fun n same => absurd same (record n)) ⟨starting, stopping⟩
      (fun _ => ⟨child, latched, rfl⟩) (fun closed => ⟨child, (shutting closed).2.1, rfl⟩)
  | shutdown =>
    refine inv.goOn rfl rfl (fun n same => absurd same (record n)) ⟨starting, stopping⟩
      (fun _ => ⟨child, latched, rfl⟩) (fun _ => ⟨child, shut rfl, rfl⟩)
  | switch config =>
    refine inv.goOn rfl rfl (fun n same => absurd same (record n)) ⟨starting, stopping, child⟩
      (fun _ => ⟨child, latched, rfl⟩) (fun closed => ⟨child, (shutting closed).2.1, rfl⟩)

theorem Inv.stop (inv : Inv s) (free : s.holder = none)
    (goal : StopGoal Config) (shut : goal = .shutdown → s.shutdownRequested = true) :
    Inv (s.stop goal) := by
  have transaction := inv.holder
  simp only [HolderInv, free] at transaction
  have asked : Inv { s with stopRequested := true, commands := s.commands + 1 } := by
    refine inv.goOn rfl rfl (fun n record => by simp [free] at record) ?_
      (fun stopped => ⟨(inv.stopped stopped).1, rfl, (inv.stopped stopped).2.2⟩) inv.closed
    simp only [HolderInv, free]
    exact transaction
  unfold ServeManager.stop
  match child : s.child with
  | none =>
    simp only [child] at asked ⊢
    exact asked.stopReturns rfl rfl transaction.1 transaction.2 goal shut (by simp [free])
  | some n =>
    simp only [child] at asked ⊢
    refine asked.goOn rfl rfl (fun m record => by simp [free] at record)
      ⟨transaction.1, rfl, shut, .inl rfl⟩ (fun stopped => ?_) (fun closed => ?_)
    · exact absurd ((inv.stopped stopped).1.symm.trans child) (by simp)
    · exact absurd ((inv.closed closed).1.symm.trans child) (by simp)

theorem Inv.stopRaises (inv : Inv s)
    (starting : s.starting = false)
    (child : s.child = some n ∨ (s.child = none ∧ s.stopping = false))
    (held : Holder.restful s.holder = false) (record : ∀ n, s.holder ≠ some (.record n))
    (goal : StopGoal Config) : Inv (s.stopRaises n goal) := by
  have returned : s.stopped = false := by
    by_contra stopped
    exact absurd (inv.stopped (by simpa using stopped)).2.2 (by simp [held])
  have shut : s.closed = false := by
    by_contra closed
    exact absurd (inv.closed (by simpa using closed)).2.2 (by simp [held])
  have stopping : (if s.child = some n then false else s.stopping) = false := by
    rcases child with child | ⟨-, stopping⟩ <;> simp [*]
  cases goal <;>
    exact inv.goOn rfl rfl (fun m same => absurd same (record m)) ⟨starting, stopping⟩
      (fun stopped => absurd (returned.symm.trans stopped) (by simp))
      (fun closed => absurd (shut.symm.trans closed) (by simp))

theorem Inv.child_of_isReaped (inv : Inv s)
    (child : s.child = some n ∨ (s.child = none ∧ s.stopping = false)) (reaped : s.isReaped n = true) :
    s.child = none ∧ s.stopping = false := by
  refine child.resolve_left fun current => ?_
  obtain ⟨e, here, held⟩ := inv.child n current
  have reaps := (inv.engines n e here).reaps
  have positive : 0 < e.reaps := by simpa [isReaped, here] using reaped
  rw [reaps] at positive
  cases phase : e.monitor <;> simp [phase, WatchPhase.held, WatchPhase.isReaped] at held positive


theorem holder_of_idle (idle : s.idle = true) : s.holder = none := by
  simp only [ServeManager.idle, Bool.and_eq_true, Option.isNone_iff_eq_none] at idle
  exact idle.1

theorem Inv.stopGoesOn (inv : Inv s) {h : Holder Config}
    (rests : Holder.restful s.holder = false) (record : ∀ n, s.holder ≠ some (.record n))
    (holder : HolderInv { s with holder := some h }) : Inv { s with holder := some h } := by
  refine inv.goOn rfl rfl (fun n same => absurd same (record n)) holder (fun stopped => ?_)
    (fun closed => ?_)
  · exact absurd (inv.stopped stopped).2.2 (by simp [rests])
  · exact absurd (inv.closed closed).2.2 (by simp [rests])

theorem Inv.spawn (inv : Inv s) {config : Config}
    (spawning : s.holder = some (.spawn config origin)) (pid : Int) (starttime : Option Int) :
    Inv { s with
      holder := some (.record s.engines.length)
      engines := s.engines ++ [Engine.spawned pid starttime config origin s.commands] } := by
  have transaction := inv.holder
  simp only [HolderInv, spawning] at transaction
  obtain ⟨starting, stopping, child⟩ := transaction
  have rests : Holder.restful s.holder = false := by simp [spawning, Holder.restful]
  refine ⟨fun n e here => ?_, fun n current => by simp [child] at current,
    ⟨starting, stopping, child, _, List.getElem?_concat_length, rfl⟩, fun stopped => ?_, fun closed => ?_⟩
  · rcases Nat.lt_or_ge n s.engines.length with below | above
    · rw [List.getElem?_append_left below] at here
      have known := inv.engines n e here
      refine ⟨fun alive => ?_, fun held => ?_, known.exited, known.reaps, known.crashed⟩
      · have := known.alive alive
        simp [child, spawning] at this
      · have := known.held held
        simp [child, spawning] at this
    · have last : n = s.engines.length := by
        by_contra other
        rw [List.getElem?_eq_none (by simp; omega)] at here
        simp at here
      subst last
      obtain rfl : e = Engine.spawned pid starttime config origin s.commands := by simpa using here.symm
      exact ⟨fun _ => .inr rfl, fun _ => .inr rfl, fun off => absurd rfl off, rfl,
        fun crashed => by simp [Engine.spawned] at crashed⟩
  · exact absurd (inv.stopped stopped).2.2 (by simp [rests])
  · exact absurd (inv.closed closed).2.2 (by simp [rests])

theorem Inv.record (inv : Inv s)
    (there : s.holder = some (.record n)) :
    Inv { s with
        child := some n, config := s.engines[n]?.map (·.config), stopping := false
        starting := false, holder := some (.watch n) } := by
  have transaction := inv.holder
  simp only [HolderInv, there] at transaction
  obtain ⟨starting, stopping, child, e, here, off⟩ := transaction
  have rests : Holder.restful s.holder = false := by simp [there, Holder.restful]
  refine ⟨fun m c mem => ?_, fun m current => ?_, ⟨rfl, rfl, rfl, e, here, off⟩, fun stopped => ?_,
    fun closed => ?_⟩
  · have known := inv.engines m c mem
    refine ⟨fun alive => ?_, fun held => ?_, known.exited, known.reaps, known.crashed⟩
    · have := known.alive alive
      simp only [child, there, Option.some.injEq, Holder.record.injEq, reduceCtorEq, false_or] at this
      exact .inl (congrArg some this)
    · have := known.held held
      simp only [child, there, Option.some.injEq, Holder.record.injEq, reduceCtorEq, false_or] at this
      exact .inl (congrArg some this)
  · cases current
    exact ⟨e, here, by simp [off, WatchPhase.held]⟩
  · exact absurd (inv.stopped stopped).2.2 (by simp [rests])
  · exact absurd (inv.closed closed).2.2 (by simp [rests])

theorem Inv.release (inv : Inv s)
    (there : s.holder = some (.watch n)) : Inv { s with holder := none } := by
  have transaction := inv.holder
  simp only [HolderInv, there] at transaction
  have rests : Holder.restful s.holder = false := by simp [there, Holder.restful]
  refine inv.goOn rfl rfl (fun m same => by simp [there] at same) ⟨transaction.1, transaction.2.1⟩
    (fun stopped => ?_) (fun closed => ?_)
  · exact absurd (inv.stopped stopped).2.2 (by simp [rests])
  · exact absurd (inv.closed closed).2.2 (by simp [rests])

theorem Inv.clear (inv : Inv s)
    (here : s.engines[n]? = some e) {wasStopping isCurrent : Bool}
    (sampled : e.monitor = .sampled wasStopping isCurrent) (current : s.child = some n) :
    Inv (ServeManager.modify n (fun e => { e with
          monitor := .cleared wasStopping true
          crashed := if wasStopping then none else some s.commands })
          { s with child := none, stopping := false }) := by
  have transaction := inv.holder
  refine ⟨fun m c mem => ?_, fun m other => by simp [ServeManager.modify] at other, ?_,
    fun stopped => ?_, fun closed => ?_⟩
  · rcases getElem?_modify_some mem with ⟨rfl, before, same, rfl⟩ | ⟨ne, mem⟩
    · cases here.symm.trans same
      have known := inv.engines _ _ here
      have exited := known.exited (by simp [sampled]) (by simp [sampled])
      refine ⟨fun alive => absurd (exited.symm.trans alive) (by simp), fun held => ?_, fun _ _ => exited,
        ?_, fun _ => rfl⟩
      · simp [WatchPhase.held] at held
      · have reaps := known.reaps
        rw [sampled] at reaps
        exact reaps
    · have known := inv.engines m c mem
      have record : ∀ k, s.child = some m ∨ s.holder = some (.record k) →
          (none : Option Nat) = some m ∨ s.holder = some (.record k) := by
        rintro k (other | record)
        · exact absurd (Option.some.inj (current.symm.trans other)) ne
        · exact .inr record
      exact ⟨fun alive => record m (known.alive alive), fun held => record m (known.held held),
        known.exited, known.reaps, known.crashed⟩
  · unfold HolderInv at transaction ⊢
    unfold ServeManager.modify
    grind
  · exact absurd ((inv.stopped stopped).1.symm.trans current) (by simp)
  · exact absurd ((inv.closed closed).1.symm.trans current) (by simp)

theorem Inv.step [DecidableEq Config] {s s' : ServeManager Config} (inv : Inv s)
    {ev : ServeEvent Config} (taken : s.step ev = some s') : Inv s' := by
  have transaction := inv.holder
  cases ev with
  | start config =>
    obtain ⟨idle, rfl⟩ := of_guard taken
    exact inv.start (holder_of_idle idle) config
  | stop =>
    obtain ⟨idle, rfl⟩ := of_guard taken
    exact inv.stop (holder_of_idle idle) .stop (by simp)
  | shutdown =>
    obtain ⟨idle, rfl⟩ := of_guard taken
    have free := holder_of_idle idle
    have shutting : Inv { s with shutdownRequested := true } := by
      simp only [HolderInv, free] at transaction
      refine inv.goOn rfl rfl (fun n record => record) ?_ inv.stopped fun closed => ?_
      · simp only [HolderInv, free]
        exact transaction
      · exact ⟨(inv.closed closed).1, rfl, (inv.closed closed).2.2⟩
    exact shutting.stop free .shutdown fun _ => rfl
  | switch config =>
    obtain ⟨idle, rfl⟩ := of_guard taken
    exact inv.stop (holder_of_idle idle) (.switch config) (by simp)
  | prepared =>
    simp only [ServeManager.step] at taken
    split at taken
    · rename_i n goal there
      cases taken
      simp only [HolderInv, there] at transaction
      exact inv.stopGoesOn (by simp [there, Holder.restful]) (by simp [there]) transaction
    · simp at taken
  | prepareFails =>
    simp only [ServeManager.step] at taken
    split at taken
    · rename_i n goal there
      cases taken
      simp only [HolderInv, there] at transaction
      exact inv.stopRaises transaction.1 transaction.2.2.2 (by simp [there, Holder.restful])
        (by simp [there]) goal
    · simp at taken
  | terminate | kill =>
    simp only [ServeManager.step] at taken
    split at taken
    · rename_i n goal there
      obtain ⟨-, rfl⟩ := of_unless taken
      simp only [HolderInv, there] at transaction
      exact inv.stopGoesOn (by simp [there, Holder.restful]) (by simp [there]) transaction
    · simp at taken
  | stopReturns =>
    simp only [ServeManager.step] at taken
    split at taken
    case h_4 => simp at taken
    all_goals
      rename_i n goal there
      obtain ⟨reaped, rfl⟩ := of_guard taken
      simp only [HolderInv, there] at transaction
      obtain ⟨child, stopping⟩ := inv.child_of_isReaped transaction.2.2.2 reaped
      exact inv.stopReturns child transaction.2.1 transaction.1 stopping goal transaction.2.2.1
        (by simp [there])
  | signalFails =>
    simp only [ServeManager.step] at taken
    split at taken
    case h_4 => simp at taken
    all_goals
      rename_i n goal there
      cases taken
      simp only [HolderInv, there] at transaction
      exact inv.stopRaises transaction.1 transaction.2.2.2 (by simp [there, Holder.restful])
        (by simp [there]) goal
  | resume =>
    simp only [ServeManager.step] at taken
    split at taken
    · rename_i config there
      obtain ⟨-, rfl⟩ := of_unless taken
      simp only [HolderInv, there] at transaction
      have free : Inv { s with holder := none } := by
        refine inv.goOn rfl rfl (fun n same => by simp [there] at same)
          ⟨transaction.1, transaction.2.1⟩ (fun stopped => ?_) (fun closed => ?_)
        · exact ⟨transaction.2.2, (inv.stopped stopped).2.1, rfl⟩
        · exact ⟨transaction.2.2, (inv.closed closed).2.1, rfl⟩
      exact free.start rfl config
    · simp at taken
  | spawn pid starttime =>
    simp only [ServeManager.step] at taken
    split at taken
    · rename_i config origin there
      cases taken
      exact inv.spawn there pid starttime
    · simp at taken
  | spawnFails =>
    simp only [ServeManager.step] at taken
    split at taken
    · rename_i config origin there
      cases taken
      simp only [HolderInv, there] at transaction
      have rests : Holder.restful s.holder = false := by simp [there, Holder.restful]
      refine inv.goOn rfl rfl (fun m same => by simp [there] at same) ⟨rfl, transaction.2.1⟩
        (fun stopped => ?_) (fun closed => ?_)
      · exact absurd (inv.stopped stopped).2.2 (by simp [rests])
      · exact absurd (inv.closed closed).2.2 (by simp [rests])
    · simp at taken
  | record =>
    simp only [ServeManager.step] at taken
    split at taken
    · rename_i n there
      cases taken
      exact inv.record there
    · simp at taken
  | watch =>
    simp only [ServeManager.step] at taken
    split at taken
    · rename_i n there
      cases taken
      simp only [HolderInv, there] at transaction
      obtain ⟨-, -, current, e, here, off⟩ := transaction
      refine (inv.release there).modify here (fun known => ?_) (fun _ => rfl) (.inl rfl)
      refine ⟨known.alive, fun _ => .inl current, fun _ other => absurd rfl other, ?_,
        fun crashed => ?_⟩
      · simpa [off, WatchPhase.isReaped] using known.reaps
      · have held := known.crashed crashed
        simp [off, WatchPhase.held] at held
    · simp at taken
  | persistFails =>
    simp only [ServeManager.step] at taken
    split at taken
    · rename_i n there
      cases taken
      exact inv.release there
    · simp at taken
  | exit n =>
    obtain ⟨e, here, running, rfl⟩ := exists_of_guarded taken
    refine inv.modify here (fun known => ?_) id (.inr id)
    exact ⟨fun alive => by simp at alive, known.held, fun _ _ => rfl, known.reaps, known.crashed⟩
  | sample n =>
    obtain ⟨e, here, ⟨waiting, exited⟩, rfl⟩ := exists_of_guarded taken
    refine inv.modify here (fun known => ?_) (fun _ => rfl) (.inr fun off => ?_)
    · refine ⟨known.alive, fun _ => known.held (by simp [waiting, WatchPhase.held]),
        fun _ _ => exited, ?_, fun crashed => ?_⟩
      · simpa [waiting, WatchPhase.isReaped] using known.reaps
      · have held := known.crashed crashed
        simp [waiting, WatchPhase.held] at held
    · simp [waiting] at off
  | accountingFails n =>
    obtain ⟨e, here, taken⟩ := Option.bind_eq_some_iff.mp taken
    split at taken
    · cases taken
      refine inv.goOn rfl rfl (fun n record => record) ?_ (fun stopped => ?_) inv.closed
      · unfold HolderInv at transaction ⊢
        grind
      · exact ⟨(inv.stopped stopped).1, rfl, (inv.stopped stopped).2.2⟩
    · simp at taken
  | clear n =>
    obtain ⟨e, here, taken⟩ := Option.bind_eq_some_iff.mp taken
    split at taken
    · rename_i wasStopping isCurrent sampled
      by_cases current : s.child = some n
      · rw [if_pos current] at taken
        cases taken
        exact inv.clear here sampled current
      · exfalso
        have held := (inv.engines n e here).held (by simp [sampled, WatchPhase.held])
        have record := held.resolve_left current
        simp only [HolderInv, record] at transaction
        obtain ⟨-, -, -, c, mem, off⟩ := transaction
        cases here.symm.trans mem
        simp [sampled] at off
    · simp at taken
  | reap n =>
    obtain ⟨e, here, taken⟩ := Option.bind_eq_some_iff.mp taken
    split at taken
    · rename_i wasStopping isCurrent cleared
      cases taken
      refine inv.modify here (fun known => ?_) (fun held => ?_) (.inr fun off => ?_)
      · have exited := known.exited (by simp [cleared]) (by simp [cleared])
        refine ⟨known.alive, fun held => by simp [WatchPhase.held] at held, fun _ _ => exited, ?_,
          fun _ => rfl⟩
        simpa [cleared, WatchPhase.isReaped] using known.reaps
      · simp [cleared, WatchPhase.held] at held
      · simp [cleared] at off
    · simp at taken
  | decide n =>
    obtain ⟨e, here, taken⟩ := Option.bind_eq_some_iff.mp taken
    split at taken
    · rename_i wasStopping isCurrent reaped
      cases taken
      refine inv.modify here (fun known => ?_) (fun held => ?_) (.inr fun off => ?_)
      · have exited := known.exited (by simp [reaped]) (by simp [reaped])
        have reaps := known.reaps
        rw [reaped] at reaps
        split_ifs
        · exact ⟨known.alive, fun held => by simp [WatchPhase.held] at held, fun _ _ => exited, reaps,
            fun _ => rfl⟩
        · exact ⟨known.alive, fun held => by simp [WatchPhase.held] at held, fun _ _ => exited, reaps,
            fun _ => rfl⟩
      · simp [reaped, WatchPhase.held] at held
      · simp [reaped] at off
    · simp at taken
  | capture n =>
    obtain ⟨e, here, restarting, rfl⟩ := exists_of_guarded taken
    have captured : Inv { s with
        restarts := s.restarts ++ s.config.toList.map fun config => ⟨config, n⟩ } :=
      inv.goOn rfl rfl (fun n record => record) transaction inv.stopped inv.closed
    refine captured.modify here (fun known => ?_) (fun held => ?_) (.inr fun off => ?_)
    · have exited := known.exited (by simp [restarting]) (by simp [restarting])
      have reaps := known.reaps
      rw [restarting] at reaps
      exact ⟨known.alive, fun held => by simp [WatchPhase.held] at held, fun _ _ => exited, reaps,
        fun _ => rfl⟩
    · simp [restarting, WatchPhase.held] at held
    · simp [restarting] at off
  | restart k =>
    obtain ⟨thread, here, idle, rfl⟩ := exists_of_guarded taken
    have taken : Inv { s with restarts := s.restarts.eraseIdx k } :=
      inv.goOn rfl rfl (fun n record => record) transaction inv.stopped inv.closed
    exact taken.autoStart (holder_of_idle idle) thread.config thread.trigger

/-! ## Restarts -/

/-- The restart of a crashed engine can still come: nothing was launched since, and a command of a client
since then was a stop. -/
structure Settling (s : ServeManager Config) (n : Nat) (e : Engine Config) : Prop where
  last : n + 1 = s.engines.length
  child : s.child = none
  quiet : Holder.launching s.holder = false
  crashed : ∃ commands, e.crashed = some commands ∧
    (commands = s.commands ∨ s.stopRequested = true)

/-- What holds in addition while nothing disturbs a restart. -/
structure RestartInv (s : ServeManager Config) : Prop where
  child : ∀ n, s.child = some n → n + 1 = s.engines.length
  recorded : ∀ n, s.holder = some (.record n) → n + 1 = s.engines.length
  config : ∀ (n : Nat) (e : Engine Config), s.engines[n]? = some e → n + 1 = s.engines.length →
    s.holder ≠ some (.record n) → s.config = some e.config
  restarting : ∀ (n : Nat) (e : Engine Config), s.engines[n]? = some e → e.monitor = .restarting →
    s.autoRestart = true
  pending : s.autoRestart = true → ∀ (n : Nat) (e : Engine Config), s.engines[n]? = some e →
    e.monitor.pending = true → s.Settling n e
  queued : s.restarts = [] ∨ ∃ thread dead, s.restarts = [thread] ∧
    s.engines[thread.trigger]? = some dead ∧ dead.monitor = .done ∧ dead.config = thread.config ∧
    s.Settling thread.trigger dead
  spawning : ∀ config trigger, s.holder = some (.spawn config (.restart trigger)) →
    trigger + 1 = s.engines.length ∧ ∃ dead, s.engines[trigger]? = some dead ∧
      dead.config = config ∧ dead.crashed = some s.commands
  past : ∀ (n trigger : Nat) (e : Engine Config), s.engines[n]? = some e →
    e.origin = .restart trigger → Restarted s.engines e n trigger

theorem restartInv_boot (autoRestart : Bool) (adopted : Option (Config × Int × Option Int)) :
    RestartInv (boot autoRestart adopted) := by
  have only : ∀ (n : Nat) (e : Engine Config), (boot autoRestart adopted).engines[n]? = some e →
      ∃ found, adopted = some found ∧ n = 0 ∧
        e = { Engine.spawned found.2.1 found.2.2 found.1 .client 0 with monitor := .waiting } := by
    intro n e here
    match adopted, n with
    | none, n => simp [boot] at here
    | some found, 0 => exact ⟨found, rfl, rfl, (Option.some.inj here).symm⟩
    | some found, n + 1 => simp [boot] at here
  refine ⟨fun n current => ?_, fun n record => by simp [boot] at record, fun n e here _ _ => ?_,
    fun n e here restarting => ?_, fun _ n e here pending => ?_, .inl rfl,
    fun config trigger spawning => by simp [boot] at spawning, fun n trigger e here origin => ?_⟩
  · match adopted with
    | none => simp [boot] at current
    | some found =>
      cases current
      rfl
  · obtain ⟨found, rfl, rfl, rfl⟩ := only n e here
    rfl
  · obtain ⟨found, rfl, rfl, rfl⟩ := only n e here
    simp at restarting
  · obtain ⟨found, rfl, rfl, rfl⟩ := only n e here
    simp [WatchPhase.pending] at pending
  · obtain ⟨found, rfl, rfl, rfl⟩ := only n e here
    simp [Engine.spawned] at origin

theorem RestartInv.goOn {s s' : ServeManager Config} (inv : RestartInv s)
    (child : s'.child = s.child) (engines : s'.engines = s.engines) (config : s'.config = s.config)
    (autoRestart : s'.autoRestart = s.autoRestart) (restarts : s'.restarts = s.restarts)
    (latched : s'.stopRequested = true ∨
      (s'.stopRequested = s.stopRequested ∧ s'.commands = s.commands))
    (record : ∀ n, s.holder ≠ some (.record n)) (quiet : Holder.launching s'.holder = false) :
    RestartInv s' := by
  have settling : ∀ n e, s.Settling n e → s'.Settling n e := by
    rintro n e ⟨last, none_, -, k, crashed, before⟩
    exact ⟨engines ▸ last, child.trans none_, quiet, k, crashed, by grind⟩
  refine ⟨fun n current => ?_, fun n there => ?_, fun n e here last _ => ?_, fun n e here => ?_,
    fun on n e here pending => ?_, ?_, fun config trigger there => ?_, fun n trigger e here origin => ?_⟩
  · rw [engines]
    exact inv.child n (child ▸ current)
  · simp [there, Holder.launching] at quiet
  · rw [config]
    exact inv.config n e (engines ▸ here) (engines ▸ last) (record n)
  · rw [autoRestart]
    exact inv.restarting n e (engines ▸ here)
  · exact settling n e (inv.pending (autoRestart ▸ on) n e (engines ▸ here) pending)
  · rw [restarts, engines]
    refine inv.queued.imp_right fun ⟨thread, dead, only, here, done, same, settled⟩ => ?_
    exact ⟨thread, dead, only, here, done, same, settling _ _ settled⟩
  · simp [there, Holder.launching] at quiet
  · obtain ⟨next, dead, there, same, crashed⟩ := inv.past n trigger e (engines ▸ here) origin
    exact ⟨next, dead, engines ▸ there, same, crashed⟩

theorem getElem?_modify_keeps {n m : Nat}
    {e c : Engine Config} (here : engines[n]? = some e)
    (mem : engines[m]? = some c) {P : Engine Config → Prop} (keeps : P e → P (f e)) (holds : P c) :
    ∃ c', (engines.modify n f)[m]? = some c' ∧ P c' := by
  by_cases same : n = m
  · subst same
    cases here.symm.trans mem
    exact ⟨f e, getElem?_modify_self here f, keeps holds⟩
  · exact ⟨c, by simpa [same] using mem, holds⟩

theorem RestartInv.modify (inv : RestartInv s)
    (here : s.engines[n]? = some e)
    (same : (f e).config = e.config ∧ (f e).origin = e.origin ∧ (f e).launched = e.launched ∧
      (f e).crashed = e.crashed)
    (restarting : (f e).monitor = .restarting → s.autoRestart = true)
    (pending : (f e).monitor.pending = true → e.monitor.pending = true)
    (done : e.monitor = .done → (f e).monitor = .done) : RestartInv (s.modify n f) := by
  obtain ⟨config, origin, launched, crashed⟩ := same
  have length : (s.modify n f).engines.length = s.engines.length := by simp [ServeManager.modify]
  have settling : ∀ m c c', s.Settling m c → c'.crashed = c.crashed → (s.modify n f).Settling m c' := by
    rintro m c c' ⟨last, child, quiet, k, crash, before⟩ same
    exact ⟨length.symm ▸ last, child, quiet, k, same.trans crash, before⟩
  have behind : ∀ (m : Nat) (c' : Engine Config), (s.modify n f).engines[m]? = some c' → ∃ c, s.engines[m]? = some c ∧
      c'.config = c.config ∧ c'.origin = c.origin ∧ c'.launched = c.launched ∧
      c'.crashed = c.crashed ∧ (c'.monitor = .restarting → c.monitor = .restarting ∨
        s.autoRestart = true) ∧ (c'.monitor.pending = true → c.monitor.pending = true) := by
    intro m c' mem
    rcases getElem?_modify_some mem with ⟨rfl, before, same, rfl⟩ | ⟨-, mem⟩
    · cases here.symm.trans same
      exact ⟨e, here, config, origin, launched, crashed, fun at_ => .inr (restarting at_), pending⟩
    · exact ⟨c', mem, rfl, rfl, rfl, rfl, .inl, id⟩
  refine ⟨fun m current => length.symm ▸ inv.child m current,
    fun m there => length.symm ▸ inv.recorded m there, fun m c' mem last record => ?_,
    fun m c' mem at_ => ?_, fun on m c' mem at_ => ?_, ?_, fun config' trigger there => ?_,
    fun m trigger c' mem from_ => ?_⟩
  · obtain ⟨c, mem, config', -⟩ := behind m c' mem
    rw [config']
    exact inv.config m c mem (length ▸ last) record
  · obtain ⟨c, mem, -, -, -, -, restarting', -⟩ := behind m c' mem
    exact (restarting' at_).elim (inv.restarting m c mem) id
  · obtain ⟨c, mem, -, -, -, crashed', -, pending'⟩ := behind m c' mem
    exact settling m c c' (inv.pending on m c mem (pending' at_)) crashed'
  · refine inv.queued.imp_right fun ⟨thread, dead, only, mem, isDone, same, settled⟩ => ?_
    obtain ⟨dead', mem', isDone', same', crashed'⟩ := getElem?_modify_keeps (f := f) here mem
      (P := fun c => c.monitor = .done ∧ c.config = thread.config ∧ c.crashed = dead.crashed)
      (fun ⟨isDone, same, crash⟩ => ⟨done isDone, config.trans same, crashed.trans crash⟩)
      ⟨isDone, same, rfl⟩
    exact ⟨thread, dead', only, mem', isDone', same', settling _ _ _ settled crashed'⟩
  · obtain ⟨last, dead, mem, same, crash⟩ := inv.spawning config' trigger there
    obtain ⟨dead', mem', same', crash'⟩ := getElem?_modify_keeps (f := f) here mem
      (P := fun c => c.config = config' ∧ c.crashed = some s.commands)
      (fun ⟨same, crash⟩ => ⟨config.trans same, crashed.trans crash⟩) ⟨same, crash⟩
    exact ⟨length.symm ▸ last, dead', mem', same', crash'⟩
  · obtain ⟨c, mem, config', origin', launched', -⟩ := behind m c' mem
    obtain ⟨next, dead, there, same, crash⟩ := inv.past m trigger c mem (origin' ▸ from_)
    obtain ⟨dead', there', same', crash'⟩ := getElem?_modify_keeps (f := f) here there
      (P := fun d => d.config = c'.config ∧ d.crashed = some c'.launched)
      (fun ⟨same, crash⟩ => ⟨config.trans same, crashed.trans crash⟩)
      ⟨same.trans config'.symm, launched'.symm ▸ crash⟩
    exact ⟨next, dead', there', same', crash'⟩

theorem RestartInv.start [DecidableEq Config] {s : ServeManager Config} (inv : RestartInv s)
    (record : ∀ n, s.holder ≠ some (.record n)) (quiet : Holder.launching s.holder = false)
    (config : Config) (undisturbed : s.shutdownRequested = false → ¬ s.RestartPending) :
    RestartInv (s.start config).2 := by
  unfold ServeManager.start
  split_ifs with shut
  · exact inv
  have settled := undisturbed (by simpa using shut)
  have none_ : s.restarts = [] := by
    by_contra some_
    exact settled (.inl some_)
  have notPending : s.autoRestart = true → ∀ (n : Nat) (e : Engine Config),
      s.engines[n]? = some e → e.monitor.pending = true → False :=
    fun on n e here pending => settled (.inr ⟨on, n, e, here, pending⟩)
  have admitted : ∀ s' : ServeManager Config, s'.child = s.child → s'.engines = s.engines →
      s'.config = s.config → s'.autoRestart = s.autoRestart → s'.restarts = s.restarts →
      (s'.holder = s.holder ∨ ∃ config, s'.holder = some (.spawn config .client)) →
      RestartInv s' := by
    intro s' child engines config' autoRestart restarts holder
    have noRecord : ∀ n, s'.holder ≠ some (.record n) := by
      rcases holder with same | ⟨config, same⟩
      · exact same ▸ record
      · simp [same]
    refine ⟨fun n current => ?_, fun n there => absurd there (noRecord n), fun n e here last _ => ?_,
      fun n e here at_ => ?_, fun on n e here pending => ?_, .inl (restarts.trans none_),
      fun config trigger there => ?_, fun n trigger e here origin => ?_⟩
    · exact engines ▸ inv.child n (child ▸ current)
    · exact config'.trans (inv.config n e (engines ▸ here) (engines ▸ last) (record n))
    · exact autoRestart.trans (inv.restarting n e (engines ▸ here) at_)
    · exact (notPending (autoRestart ▸ on) n e (engines ▸ here) pending).elim
    · rcases holder with same | ⟨config, same⟩
      · rw [same] at there
        simp [there, Holder.launching] at quiet
      · simp [there] at same
    · obtain ⟨next, dead, there, same, crashed⟩ := inv.past n trigger e (engines ▸ here) origin
      exact ⟨next, dead, engines ▸ there, same, crashed⟩
  unfold ServeManager.enter
  split_ifs
  · exact admitted _ rfl rfl rfl rfl rfl (.inl rfl)
  · exact admitted _ rfl rfl rfl rfl rfl (.inl rfl)
  · exact admitted _ rfl rfl rfl rfl rfl (.inl rfl)
  · exact admitted _ rfl rfl rfl rfl rfl (.inr ⟨config, rfl⟩)

theorem RestartInv.autoStart [DecidableEq Config] {s : ServeManager Config} (inv : RestartInv s)
    (free : s.holder = none) {k : Nat} {thread : Restart Config} (here : s.restarts[k]? = some thread) :
    RestartInv (ServeManager.autoStart thread.config thread.trigger
      { s with restarts := s.restarts.eraseIdx k }).2 := by
  obtain ⟨dead, only, mem, done, same, settled⟩ : ∃ dead, s.restarts.eraseIdx k = [] ∧
      s.engines[thread.trigger]? = some dead ∧ dead.monitor = .done ∧ dead.config = thread.config ∧
      s.Settling thread.trigger dead := by
    rcases inv.queued with none_ | ⟨thread', dead, only, mem, done, same, settled⟩
    · simp [none_] at here
    · rw [only] at here ⊢
      match k with
      | 0 =>
        cases here
        exact ⟨dead, rfl, mem, done, same, settled⟩
      | k + 1 => simp at here
  have admitted : ∀ s' : ServeManager Config, s'.child = s.child → s'.engines = s.engines →
      s'.config = s.config → s'.autoRestart = s.autoRestart → s'.restarts = [] →
      s'.commands = s.commands → s'.stopRequested = s.stopRequested →
      (s'.holder = none ∨ (s'.stopRequested = false ∧
        s'.holder = some (.spawn thread.config (.restart thread.trigger)))) → RestartInv s' := by
    intro s' child engines config autoRestart restarts commands latched holder
    have noRecord : ∀ n, s'.holder ≠ some (.record n) := by
      rcases holder with same | ⟨-, same⟩ <;> simp [same]
    have notPending : s.autoRestart = true → ∀ (n : Nat) (e : Engine Config),
        s.engines[n]? = some e → e.monitor.pending = true → False := by
      intro on n e there pending
      have last := (inv.pending on n e there pending).last
      obtain rfl : n = thread.trigger := Nat.succ.inj (last.trans settled.last.symm)
      cases mem.symm.trans there
      simp [done, WatchPhase.pending] at pending
    refine ⟨fun n current => ?_, fun n there => absurd there (noRecord n), fun n e here last _ => ?_,
      fun n e here at_ => ?_, fun on n e here pending => ?_, .inl restarts,
      fun config trigger there => ?_, fun n trigger e here origin => ?_⟩
    · exact engines ▸ inv.child n (child ▸ current)
    · exact config.trans (inv.config n e (engines ▸ here) (engines ▸ last) (by simp [free]))
    · exact autoRestart.trans (inv.restarting n e (engines ▸ here) at_)
    · exact (notPending (autoRestart ▸ on) n e (engines ▸ here) pending).elim
    · rcases holder with none_ | ⟨unlatched, spawning⟩
      · simp [none_] at there
      · rw [spawning] at there
        obtain ⟨rfl, rfl⟩ : thread.config = config ∧ thread.trigger = trigger := by
          simpa using there
        obtain ⟨last, -, -, commands', crash, before⟩ := settled
        have counted : commands' = s.commands := by
          refine before.resolve_right fun stopped => ?_
          simp [latched, stopped] at unlatched
        exact ⟨engines ▸ last, dead, engines ▸ mem, same, by rw [commands, ← counted]; exact crash⟩
    · obtain ⟨next, dead, there, same, crashed⟩ := inv.past n trigger e (engines ▸ here) origin
      exact ⟨next, dead, engines ▸ there, same, crashed⟩
  unfold ServeManager.autoStart
  split_ifs with unwanted
  · exact admitted _ rfl rfl rfl rfl only rfl rfl (.inl free)
  · have unlatched : s.stopRequested = false := by
      by_contra latched
      exact unwanted (.inr (by simpa using latched))
    unfold ServeManager.enter
    split_ifs
    · exact admitted _ rfl rfl rfl rfl only rfl rfl (.inl free)
    · exact admitted _ rfl rfl rfl rfl only rfl rfl (.inl free)
    · exact admitted _ rfl rfl rfl rfl only rfl rfl (.inl free)
    · exact admitted _ rfl rfl rfl rfl only rfl rfl (.inr ⟨unlatched, rfl⟩)

theorem RestartInv.spawn (inv : RestartInv s) {config : Config}
    (spawning : s.holder = some (.spawn config origin)) (none_ : s.child = none)
    (pid : Int) (starttime : Option Int) :
    RestartInv { s with
      holder := some (.record s.engines.length)
      engines := s.engines ++ [Engine.spawned pid starttime config origin s.commands] } := by
  have busy : ∀ n e, ¬ s.Settling n e := by
    intro n e settled
    have quiet := settled.quiet
    simp [spawning, Holder.launching] at quiet
  have behind : ∀ (n : Nat) (e : Engine Config),
      (s.engines ++ [Engine.spawned pid starttime config origin s.commands])[n]? = some e →
      s.engines[n]? = some e ∨ (n = s.engines.length ∧
        e = Engine.spawned pid starttime config origin s.commands) := by
    intro n e here
    grind
  have still : ∀ (n : Nat) (e : Engine Config), s.engines[n]? = some e →
      (s.engines ++ [Engine.spawned pid starttime config origin s.commands])[n]? = some e := by
    intro n e here
    grind
  refine ⟨fun n current => ?_, fun n there => ?_, fun n e here last record => ?_,
    fun n e here at_ => ?_, fun on n e here pending => ?_, .inl ?_, fun config trigger there => ?_,
    fun n trigger e here from_ => ?_⟩
  · simp [none_] at current
  · simp only [Option.some.injEq, Holder.record.injEq] at there
    simp [← there]
  · have last' : n = s.engines.length := by simpa using last
    exact absurd (congrArg (fun n => some (Holder.record n)) last'.symm) record
  · rcases behind n e here with here | ⟨-, rfl⟩
    · exact inv.restarting n e here at_
    · simp [Engine.spawned] at at_
  · rcases behind n e here with here | ⟨-, rfl⟩
    · exact absurd (inv.pending on n e here pending) (busy n e)
    · simp [Engine.spawned, WatchPhase.pending] at pending
  · refine inv.queued.resolve_right ?_
    rintro ⟨thread, dead, -, -, -, -, settled⟩
    exact busy _ _ settled
  · simp at there
  · rcases behind n e here with here | ⟨rfl, rfl⟩
    · obtain ⟨next, dead, there, same, crashed⟩ := inv.past n trigger e here from_
      exact ⟨next, dead, still _ _ there, same, crashed⟩
    · obtain rfl : origin = .restart trigger := from_
      obtain ⟨next, dead, there, same, crashed⟩ := inv.spawning config trigger spawning
      exact ⟨next, dead, still _ _ there, same, crashed⟩

theorem RestartInv.release (inv : RestartInv s) (starting : Bool)
    (busy : Holder.launching s.holder = true) (record : ∀ n, s.holder ≠ some (.record n)) :
    RestartInv { s with holder := none, starting := starting } := by
  have none_ : ∀ n e, ¬ s.Settling n e := by
    intro n e settled
    exact absurd (busy.symm.trans settled.quiet) (by simp)
  refine ⟨inv.child, fun n there => by simp at there, fun n e here last _ => ?_, inv.restarting,
    fun on n e here pending => ?_, .inl ?_, fun config trigger there => by simp at there, inv.past⟩
  · exact inv.config n e here last (record n)
  · exact absurd (inv.pending on n e here pending) (none_ n e)
  · refine inv.queued.resolve_right ?_
    rintro ⟨thread, dead, -, -, -, -, settled⟩
    exact none_ _ _ settled

theorem RestartInv.record (inv : RestartInv s)
    (there : s.holder = some (.record n)) :
    RestartInv { s with
        child := some n, config := s.engines[n]?.map (·.config), stopping := false
        starting := false, holder := some (.watch n) } := by
  have none_ : ∀ m e, ¬ s.Settling m e := by
    intro m e settled
    have quiet := settled.quiet
    simp [there, Holder.launching] at quiet
  have last := inv.recorded n there
  refine ⟨fun m current => ?_, fun m there => by simp at there, fun m e here last' _ => ?_,
    inv.restarting, fun on m e here pending => ?_, .inl ?_,
    fun config trigger there => by simp at there, inv.past⟩
  · cases current
    exact last
  · obtain rfl : m = n := Nat.succ.inj (last'.trans last.symm)
    exact congrArg (Option.map (·.config)) here
  · exact absurd (inv.pending on m e here pending) (none_ m e)
  · refine inv.queued.resolve_right ?_
    rintro ⟨thread, dead, -, -, -, -, settled⟩
    exact none_ _ _ settled

theorem RestartInv.clear (inv : RestartInv s)
    (here : s.engines[n]? = some e) (wasStopping : Bool) (current : s.child = some n)
    (quiet : Holder.launching s.holder = false) (alive : e.crashed = none) :
    RestartInv (ServeManager.modify n (fun e => { e with
          monitor := .cleared wasStopping true
          crashed := if wasStopping then none else some s.commands })
          { s with child := none, stopping := false }) := by
  set f : Engine Config → Engine Config := fun e => { e with
    monitor := .cleared wasStopping true
    crashed := if wasStopping then none else some s.commands } with removed
  have last := inv.child n current
  have length : (s.engines.modify n f).length = s.engines.length := by simp
  have none_ : ∀ m e, ¬ s.Settling m e := by
    intro m e settled
    exact absurd (current.symm.trans settled.child) (by simp)
  refine ⟨fun m other => by simp [ServeManager.modify] at other,
    fun m there => length.symm ▸ inv.recorded m there, fun m c mem last' record => ?_,
    fun m c mem at_ => ?_, fun on m c mem pending => ?_, .inl ?_,
    fun config trigger there => ?_, fun m trigger c mem from_ => ?_⟩
  · rcases getElem?_modify_some mem with ⟨rfl, before, same, rfl⟩ | ⟨-, mem⟩
    · cases here.symm.trans same
      exact inv.config n e here last record
    · exact inv.config m c mem (length ▸ last') record
  · rcases getElem?_modify_some mem with ⟨rfl, before, same, rfl⟩ | ⟨-, mem⟩
    · simp [removed] at at_
    · exact inv.restarting m c mem at_
  · rcases getElem?_modify_some mem with ⟨rfl, before, same, rfl⟩ | ⟨-, mem⟩
    · have crash : wasStopping = false := by simpa [removed, WatchPhase.pending] using pending
      exact ⟨length.symm ▸ last, rfl, quiet, s.commands, by simp [removed, crash], .inl rfl⟩
    · exact absurd (inv.pending on m c mem pending) (none_ m c)
  · refine inv.queued.resolve_right ?_
    rintro ⟨thread, dead, -, -, -, -, settled⟩
    exact none_ _ _ settled
  · have there' : s.holder = some (.spawn config (.restart trigger)) := there
    simp [there', Holder.launching] at quiet
  · obtain ⟨c', mem', same', origin, launched⟩ : ∃ c', s.engines[m]? = some c' ∧
        c'.config = c.config ∧ c'.origin = c.origin ∧ c'.launched = c.launched := by
      rcases getElem?_modify_some mem with ⟨rfl, before, same, rfl⟩ | ⟨-, mem⟩
      · exact ⟨before, same, rfl, rfl, rfl⟩
      · exact ⟨c, mem, rfl, rfl, rfl⟩
    obtain ⟨next, dead, there, same, crashed⟩ := inv.past m trigger c' mem' (origin.trans from_)
    have other : n ≠ trigger := by
      rintro rfl
      cases here.symm.trans there
      simp [alive] at crashed
    exact ⟨next, dead, by simpa [ServeManager.modify, other] using there, same.trans same',
      crashed.trans (congrArg some launched)⟩

theorem RestartInv.capture (inv : RestartInv s)
    (here : s.engines[n]? = some e) (restarting : e.monitor = .restarting) :
    RestartInv (ServeManager.modify n (fun e => { e with monitor := .done })
        { s with restarts := s.restarts ++ s.config.toList.map fun config => ⟨config, n⟩ }) := by
  have settled := inv.pending (inv.restarting n e here restarting) n e here
    (by simp [restarting, WatchPhase.pending])
  have none_ : s.restarts = [] := by
    refine inv.queued.resolve_right ?_
    rintro ⟨thread, dead, -, mem, done, -, settled'⟩
    obtain rfl : thread.trigger = n := Nat.succ.inj (settled'.last.trans settled.last.symm)
    cases here.symm.trans mem
    exact absurd (restarting.symm.trans done) (by simp)
  have config := inv.config n e here settled.last fun record => by
    have quiet := settled.quiet
    simp [record, Holder.launching] at quiet
  have moved := inv.modify here (f := fun e => { e with monitor := .done }) ⟨rfl, rfl, rfl, rfl⟩
    (fun at_ => by simp at at_) (fun pending => by simp [WatchPhase.pending] at pending) fun _ => rfl
  have made : (s.restarts ++ s.config.toList.map fun config => (⟨config, n⟩ : Restart Config)) =
      [⟨e.config, n⟩] := by
    simp [none_, config]
  rw [made]
  refine ⟨moved.child, moved.recorded, moved.config, moved.restarting, fun on m c mem pending => ?_,
    .inr ⟨⟨e.config, n⟩, _, rfl, getElem?_modify_self here _, rfl, rfl, ?_⟩, moved.spawning, moved.past⟩
  · obtain ⟨last, child, quiet, crashed⟩ := moved.pending on m c mem pending
    exact ⟨last, child, quiet, crashed⟩
  · exact ⟨by simpa [ServeManager.modify] using settled.last, settled.child, settled.quiet,
      settled.crashed⟩

theorem RestartInv.stopReturns (inv : RestartInv s) (goal : StopGoal Config)
    (record : ∀ n, s.holder ≠ some (.record n)) : RestartInv (s.stopReturns goal) := by
  cases goal <;> exact inv.goOn rfl rfl rfl rfl rfl (.inr ⟨rfl, rfl⟩) record rfl

theorem RestartInv.stopRaises (inv : RestartInv s) (n : Nat)
    (goal : StopGoal Config) (record : ∀ n, s.holder ≠ some (.record n)) :
    RestartInv (s.stopRaises n goal) := by
  cases goal <;> exact inv.goOn rfl rfl rfl rfl rfl (.inr ⟨rfl, rfl⟩) record rfl

theorem RestartInv.stop (inv : RestartInv s) (free : s.holder = none)
    (goal : StopGoal Config) : RestartInv (s.stop goal) := by
  have record : ∀ n, s.holder ≠ some (.record n) := by simp [free]
  have asked : RestartInv { s with stopRequested := true, commands := s.commands + 1 } :=
    inv.goOn rfl rfl rfl rfl rfl (.inl rfl) record (by simp [free, Holder.launching])
  unfold ServeManager.stop
  match child : s.child with
  | none =>
    simp only [child] at asked ⊢
    exact asked.stopReturns goal record
  | some n =>
    simp only [child] at asked ⊢
    exact asked.goOn rfl rfl rfl rfl rfl (.inl rfl) record rfl

theorem RestartInv.step [DecidableEq Config] {s s' : ServeManager Config} (inv : RestartInv s)
    (safe : Inv s) {ev : ServeEvent Config} (undisturbed : s.Undisturbed ev)
    (taken : s.step ev = some s') : RestartInv s' := by
  have transaction := safe.holder
  cases ev with
  | start config =>
    obtain ⟨idle, rfl⟩ := of_guard taken
    have free := holder_of_idle idle
    exact inv.start (by simp [free]) (by simp [free, Holder.launching]) config undisturbed
  | stop =>
    obtain ⟨idle, rfl⟩ := of_guard taken
    exact inv.stop (holder_of_idle idle) .stop
  | shutdown =>
    obtain ⟨idle, rfl⟩ := of_guard taken
    have free := holder_of_idle idle
    have shutting : RestartInv { s with shutdownRequested := true } :=
      inv.goOn rfl rfl rfl rfl rfl (.inr ⟨rfl, rfl⟩) (by simp [free])
        (by simp [free, Holder.launching])
    exact shutting.stop free .shutdown
  | switch config =>
    obtain ⟨idle, rfl⟩ := of_guard taken
    exact inv.stop (holder_of_idle idle) (.switch config)
  | prepared =>
    simp only [ServeManager.step] at taken
    split at taken
    · rename_i n goal there
      cases taken
      exact inv.goOn rfl rfl rfl rfl rfl (.inr ⟨rfl, rfl⟩) (by simp [there]) rfl
    · simp at taken
  | prepareFails =>
    simp only [ServeManager.step] at taken
    split at taken
    · rename_i n goal there
      cases taken
      exact inv.stopRaises n goal (by simp [there])
    · simp at taken
  | terminate | kill =>
    simp only [ServeManager.step] at taken
    split at taken
    · rename_i n goal there
      obtain ⟨-, rfl⟩ := of_unless taken
      exact inv.goOn rfl rfl rfl rfl rfl (.inr ⟨rfl, rfl⟩) (by simp [there]) rfl
    · simp at taken
  | stopReturns =>
    simp only [ServeManager.step] at taken
    split at taken
    case h_4 => simp at taken
    all_goals
      rename_i n goal there
      obtain ⟨-, rfl⟩ := of_guard taken
      exact inv.stopReturns goal (by simp [there])
  | signalFails =>
    simp only [ServeManager.step] at taken
    split at taken
    case h_4 => simp at taken
    all_goals
      rename_i n goal there
      cases taken
      exact inv.stopRaises n goal (by simp [there])
  | resume =>
    simp only [ServeManager.step] at taken
    split at taken
    · rename_i config there
      obtain ⟨-, rfl⟩ := of_unless taken
      have free : RestartInv { s with holder := none } :=
        inv.goOn rfl rfl rfl rfl rfl (.inr ⟨rfl, rfl⟩) (by simp [there]) rfl
      exact free.start (by simp) rfl config undisturbed
    · simp at taken
  | spawn pid starttime =>
    simp only [ServeManager.step] at taken
    split at taken
    · rename_i config origin there
      cases taken
      simp only [HolderInv, there] at transaction
      exact inv.spawn there transaction.2.2 pid starttime
    · simp at taken
  | spawnFails =>
    simp only [ServeManager.step] at taken
    split at taken
    · rename_i config origin there
      cases taken
      exact inv.release _ (by simp [there, Holder.launching]) (by simp [there])
    · simp at taken
  | record =>
    simp only [ServeManager.step] at taken
    split at taken
    · rename_i n there
      cases taken
      exact inv.record there
    · simp at taken
  | watch =>
    simp only [ServeManager.step] at taken
    split at taken
    · rename_i n there
      cases taken
      simp only [HolderInv, there] at transaction
      obtain ⟨-, -, -, e, here, off⟩ := transaction
      have released := inv.release s.starting (by simp [there, Holder.launching])
        (by simp [there])
      refine released.modify here ⟨rfl, rfl, rfl, rfl⟩ (fun at_ => by simp at at_)
        (fun pending => by simp [WatchPhase.pending] at pending) fun done => ?_
      simp [off] at done
    · simp at taken
  | persistFails =>
    simp only [ServeManager.step] at taken
    split at taken
    · rename_i n there
      cases taken
      exact inv.release _ (by simp [there, Holder.launching]) (by simp [there])
    · simp at taken
  | exit n =>
    obtain ⟨e, here, -, rfl⟩ := exists_of_guarded taken
    exact inv.modify here ⟨rfl, rfl, rfl, rfl⟩ (inv.restarting n e here) id id
  | sample n =>
    obtain ⟨e, here, ⟨waiting, -⟩, rfl⟩ := exists_of_guarded taken
    refine inv.modify here ⟨rfl, rfl, rfl, rfl⟩ (fun at_ => by simp at at_)
      (fun pending => by simp [WatchPhase.pending] at pending) fun done => ?_
    simp [waiting] at done
  | accountingFails n =>
    obtain ⟨e, here, taken⟩ := Option.bind_eq_some_iff.mp taken
    split at taken
    · cases taken
      obtain ⟨child, recorded, config, restarting, pending, queued, spawning, past⟩ := inv
      have settling : ∀ n e, s.Settling n e → ({ s with stopRequested := true } : ServeManager
          Config).Settling n e := by
        rintro n e ⟨last, none_, quiet, k, crashed, -⟩
        exact ⟨last, none_, quiet, k, crashed, .inr rfl⟩
      refine ⟨child, recorded, config, restarting,
        fun on n e here at_ => settling n e (pending on n e here at_), ?_, spawning, past⟩
      refine queued.imp_right fun ⟨thread, dead, only, mem, done, same, settled⟩ => ?_
      exact ⟨thread, dead, only, mem, done, same, settling _ _ settled⟩
    · simp at taken
  | clear n =>
    obtain ⟨e, here, taken⟩ := Option.bind_eq_some_iff.mp taken
    split at taken
    · rename_i wasStopping isCurrent sampled
      have known := safe.engines n e here
      have held : e.monitor.held = true := by simp [sampled, WatchPhase.held]
      by_cases current : s.child = some n
      · rw [if_pos current] at taken
        cases taken
        refine inv.clear here wasStopping current ?_ ?_
        · unfold HolderInv at transaction
          unfold Holder.launching
          grind
        · by_contra some_
          have removed := known.crashed (Option.isSome_iff_ne_none.mpr some_)
          exact absurd (held.symm.trans removed) (by simp)
      · rw [if_neg current] at taken
        cases taken
        refine inv.modify here ⟨rfl, rfl, rfl, rfl⟩ (fun at_ => by simp at at_)
          (fun pending => by simp [WatchPhase.pending] at pending) fun done => ?_
        simp [sampled] at done
    · simp at taken
  | reap n =>
    obtain ⟨e, here, taken⟩ := Option.bind_eq_some_iff.mp taken
    split at taken
    · rename_i wasStopping isCurrent cleared
      cases taken
      refine inv.modify here ⟨rfl, rfl, rfl, rfl⟩ (fun at_ => by simp at at_) (fun pending => ?_)
        fun done => ?_
      · rw [cleared]
        exact pending
      · simp [cleared] at done
    · simp at taken
  | decide n =>
    obtain ⟨e, here, taken⟩ := Option.bind_eq_some_iff.mp taken
    split at taken
    · rename_i wasStopping isCurrent reaped
      cases taken
      refine inv.modify here ⟨rfl, rfl, rfl, rfl⟩ (fun at_ => ?_) (fun pending => ?_) fun done => ?_
      · grind
      · rw [reaped]
        cases wasStopping <;> cases isCurrent <;> simp_all [WatchPhase.pending]
      · simp [reaped] at done
    · simp at taken
  | capture n =>
    obtain ⟨e, here, restarting, rfl⟩ := exists_of_guarded taken
    exact inv.capture here restarting
  | restart k =>
    obtain ⟨thread, here, idle, rfl⟩ := exists_of_guarded taken
    exact inv.autoStart (holder_of_idle idle) here

theorem safe_of_reachable [DecidableEq Config] {s : ServeManager Config}
    {meets : ServeManager Config → ServeEvent Config → Prop} (reached : Reachable meets s) :
    Safe s := by
  obtain ⟨autoRestart, adopted, reached⟩ := reached
  exact (reached.invariant Inv (inv_boot autoRestart adopted)
    fun _ _ _ inv _ taken => inv.step taken).safe

/-- While no start of a client disturbs a restart, every state that is reached is sound. -/
theorem sound_of_undisturbed [DecidableEq Config] {s : ServeManager Config}
    (reached : Reachable Undisturbed s) : Sound s := by
  refine ⟨safe_of_reachable reached, ?_⟩
  obtain ⟨autoRestart, adopted, reached⟩ := reached
  have both : Inv s ∧ RestartInv s := by
    refine reached.invariant (fun s => Inv s ∧ RestartInv s)
      ⟨inv_boot autoRestart adopted, restartInv_boot autoRestart adopted⟩ ?_
    rintro s ev s' ⟨inv, restarts⟩ undisturbed taken
    exact ⟨inv.step taken, restarts.step inv undisturbed taken⟩
  exact both.2.past

/-- An engine that crashes is restarted, and a stop comes behind it. -/
theorem sound_of_undisturbed_restarted :
    ∃ s : ServeManager Nat, Reachable Undisturbed s ∧
      s.engines.map (fun e => (e.config, e.origin)) = [(7, .client), (7, .restart 0)] ∧
      s.stopped = true ∧ Sound s := by
  have begins : Reaches step Undisturbed (boot true none : ServeManager Nat) (boot true none) := .refl
  have quiet : Undisturbed (boot true none : ServeManager Nat) (.start 7) := by
    rintro - (queued | ⟨-, n, e, here, -⟩)
    · exact queued rfl
    · simp [boot] at here
  have admitted := begins.step quiet rfl
  have stopped := admitted.run
    [.spawn 100 none, .record, .watch, .exit 0, .sample 0, .clear 0, .reap 0, .decide 0, .capture 0,
      .restart 0, .spawn 101 none, .record, .watch, .stop, .prepared, .terminate, .exit 1, .sample 1,
      .clear 1, .reap 1, .stopReturns]
    (by simp [Undisturbed]) rfl
  have reached : Reachable Undisturbed _ := ⟨true, none, stopped⟩
  exact ⟨_, reached, rfl, rfl, sound_of_undisturbed reached⟩

/-- A thread that is late restarts an engine that the client has stopped and replaced. -/
theorem unsound_of_late_restart : ∃ s : ServeManager Nat, Reachable Always s ∧ ¬ Sound s := by
  have begins : Reaches step Always (boot true none : ServeManager Nat) (boot true none) := .refl
  have restarted := begins.run
    [.start 7, .spawn 100 none, .record, .watch, .exit 0, .sample 0, .clear 0, .reap 0, .decide 0,
      .capture 0, .stop, .start 8, .spawn 101 none, .record, .watch, .exit 1, .sample 1, .clear 1,
      .reap 1, .decide 1, .restart 0, .spawn 102 none]
    (fun _ _ _ => trivial) rfl
  refine ⟨_, ⟨true, none, restarted⟩, fun sound => ?_⟩
  have next := (sound.restarts 2 0 _ rfl rfl).next
  simp at next

end ServeManager

end FreeSwarm.Daemon
