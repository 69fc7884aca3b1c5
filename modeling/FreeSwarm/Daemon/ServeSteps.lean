import FreeSwarm.Daemon.ServeRuns

/-!
# Steps of the supervisor

What one step of the supervisor does to a stop that goes on, to one that has returned, and to the engines.
-/

namespace FreeSwarm.Daemon

open FreeSwarm.Foundation

namespace ServeManager
variable {Config : Type}

/-! ## Stops -/

/-- A plain stop holds the lock. -/
def Stops (s : ServeManager Config) : Prop :=
  ∃ n, s.holder = some (.prepare n .stop) ∨ s.holder = some (.signal n .stop) ∨
    s.holder = some (.asked n .stop) ∨ s.holder = some (.killed n .stop)

variable {s s' : ServeManager Config} {ev : ServeEvent Config}

theorem stops_or_stopped [DecidableEq Config]
    (taken : s.step .stop = some s') :
    (s'.holder = none ∧ s'.stopped = true) ∨ (s'.holder.isNone = false ∧ s'.Stops) := by
  obtain ⟨-, rfl⟩ := of_guard taken
  unfold ServeManager.stop
  match s.child with
  | none => exact .inl ⟨rfl, rfl⟩
  | some n => exact .inr ⟨rfl, n, .inl rfl⟩

theorem Stops.step [DecidableEq Config] (stops : s.Stops)
    (taken : s.step ev = some s') :
    (ev = .stopReturns → s'.stopped = true) ∧
      (s'.Stops ∨ ev = .prepareFails ∨ ev = .signalFails ∨ ev = .stopReturns) := by
  obtain ⟨n, holder⟩ := stops
  have busy : s.idle = false := by
    rcases holder with there | there | there | there <;> simp [ServeManager.idle, there]
  cases ev <;> rcases holder with there | there | there | there <;>
    simp_all [ServeManager.step, Stops, ServeManager.modify, ServeManager.stopReturns] <;> grind

theorem stopped_of_step [DecidableEq Config] (stopped : s.stopped = true)
    (taken : s.step ev = some s') :
    s'.stopped = true ∨
      (s.shutdownRequested = false ∧ (ev = .resume ∨ ∃ config, ev = .start config)) := by
  have raises : ∀ n (goal : StopGoal Config), (s.stopRaises n goal).stopped = true := by
    intro n goal
    cases goal <;> exact stopped
  have returns : ∀ (s : ServeManager Config) (goal : StopGoal Config), s.stopped = true →
      (s.stopReturns goal).stopped = true := by
    intro s goal stopped
    cases goal <;> first | rfl | exact stopped
  have stops : ∀ (s : ServeManager Config) (goal : StopGoal Config), s.stopped = true →
      (s.stop goal).stopped = true := by
    intro s goal stopped
    unfold ServeManager.stop
    match s.child with
    | none => exact returns _ goal stopped
    | some n => exact stopped
  have enters : ∀ (s : ServeManager Config) config origin, s.stopped = true →
      (s.enter config origin).2.stopped = true := by
    intro s config origin stopped
    unfold ServeManager.enter
    split_ifs <;> exact stopped
  by_cases open_ : s.shutdownRequested = false ∧ (ev = .resume ∨ ∃ config, ev = .start config)
  · exact .inr open_
  refine .inl ?_
  cases ev with
  | start config =>
    obtain ⟨-, rfl⟩ := of_guard taken
    have shut : s.shutdownRequested = true := by
      by_contra other
      exact open_ ⟨by simpa using other, .inr ⟨config, rfl⟩⟩
    unfold ServeManager.start
    rw [if_pos shut]
    exact stopped
  | stop | shutdown | switch config =>
    obtain ⟨-, rfl⟩ := of_guard taken
    exact stops _ _ stopped
  | restart k =>
    obtain ⟨thread, -, -, rfl⟩ := exists_of_guarded taken
    unfold ServeManager.autoStart
    split_ifs
    · exact stopped
    · exact enters _ _ _ stopped
  | resume =>
    simp only [ServeManager.step] at taken
    split at taken
    · obtain ⟨-, rfl⟩ := of_unless taken
      have shut : s.shutdownRequested = true := by
        by_contra other
        exact open_ ⟨by simpa using other, .inl rfl⟩
      unfold ServeManager.start
      rw [if_pos shut]
      exact stopped
    · simp at taken
  | _ =>
    simp only [ServeManager.step] at taken
    grind [ServeManager.modify]

/-! ## Engines -/

structure Goes (child : Option Nat) (n : Nat) (e e' : Engine Config) : Prop where
  identity : e'.identity = e.identity
  exited : e.exited = true → e'.exited = true
  sampled : ∀ wasStopping isCurrent, e'.monitor = .sampled wasStopping isCurrent →
    e.monitor = .sampled wasStopping isCurrent ∨
      (e.monitor = .waiting ∧ isCurrent = decide (child = some n))

theorem engines_of_step [DecidableEq Config]
    (taken : s.step ev = some s') :
    s'.engines = s.engines ∨
      (∃ n f, s'.engines = s.engines.modify n f ∧
        ∀ e, s.engines[n]? = some e → Goes s.child n e (f e)) ∨
      ∃ pid starttime config origin, ev = .spawn pid starttime ∧
        s'.engines = s.engines ++ [Engine.spawned pid starttime config origin s.commands] := by
  have raises : ∀ n (goal : StopGoal Config), (s.stopRaises n goal).engines = s.engines := by
    intro n goal
    cases goal <;> rfl
  have returns : ∀ (s : ServeManager Config) (goal : StopGoal Config),
      (s.stopReturns goal).engines = s.engines := by
    intro s goal
    cases goal <;> rfl
  have stops : ∀ (s : ServeManager Config) (goal : StopGoal Config),
      (s.stop goal).engines = s.engines := by
    intro s goal
    unfold ServeManager.stop
    match s.child with
    | none => exact returns _ goal
    | some n => rfl
  have enters : ∀ (s : ServeManager Config) config origin,
      (s.enter config origin).2.engines = s.engines := by
    intro s config origin
    unfold ServeManager.enter
    split_ifs <;> rfl
  have starts : ∀ (s : ServeManager Config) config, (s.start config).2.engines = s.engines := by
    intro s config
    unfold ServeManager.start
    split_ifs
    · rfl
    · exact enters _ _ _
  cases ev with
  | start config =>
    obtain ⟨-, rfl⟩ := of_guard taken
    exact .inl (starts s config)
  | stop | switch config =>
    obtain ⟨-, rfl⟩ := of_guard taken
    exact .inl (stops s _)
  | shutdown =>
    obtain ⟨-, rfl⟩ := of_guard taken
    exact .inl (stops _ _)
  | restart k =>
    obtain ⟨thread, -, -, rfl⟩ := exists_of_guarded taken
    left
    unfold ServeManager.autoStart
    split_ifs
    · rfl
    · exact enters _ _ _
  | resume =>
    simp only [ServeManager.step] at taken
    split at taken
    · obtain ⟨-, rfl⟩ := of_unless taken
      exact .inl (starts _ _)
    · simp at taken
  | spawn pid starttime =>
    simp only [ServeManager.step] at taken
    split at taken
    · rename_i config origin there
      exact .inr (.inr ⟨pid, starttime, config, origin, rfl, Option.some.inj taken ▸ rfl⟩)
    · simp at taken
  | watch =>
    simp only [ServeManager.step] at taken
    split at taken
    · rename_i n there
      cases taken
      refine .inr (.inl ⟨n, _, rfl, fun e _ => ⟨rfl, id, ?_⟩⟩)
      intro wasStopping isCurrent at_
      simp at at_
    · simp at taken
  | exit n =>
    obtain ⟨e, here, -, rfl⟩ := exists_of_guarded taken
    exact .inr (.inl ⟨n, _, rfl, fun e _ => ⟨rfl, fun _ => rfl, fun _ _ at_ => .inl at_⟩⟩)
  | sample n =>
    obtain ⟨e, here, ⟨waiting, -⟩, rfl⟩ := exists_of_guarded taken
    refine .inr (.inl ⟨n, _, rfl, fun c mem => ⟨rfl, id, fun wasStopping isCurrent at_ => ?_⟩⟩)
    cases here.symm.trans mem
    simp only [WatchPhase.sampled.injEq] at at_
    exact .inr ⟨waiting, at_.2.symm⟩
  | clear n =>
    obtain ⟨e, here, taken⟩ := Option.bind_eq_some_iff.mp taken
    split at taken
    · by_cases current : s.child = some n
      · rw [if_pos current] at taken
        cases taken
        refine .inr (.inl ⟨n, _, rfl, fun c _ => ⟨rfl, id, ?_⟩⟩)
        intro _ _ at_
        simp at at_
      · rw [if_neg current] at taken
        cases taken
        refine .inr (.inl ⟨n, _, rfl, fun c _ => ⟨rfl, id, ?_⟩⟩)
        intro _ _ at_
        simp at at_
    · simp at taken
  | reap n =>
    obtain ⟨e, here, taken⟩ := Option.bind_eq_some_iff.mp taken
    split at taken
    · cases taken
      refine .inr (.inl ⟨n, _, rfl, fun c _ => ⟨rfl, id, ?_⟩⟩)
      intro _ _ at_
      simp at at_
    · simp at taken
  | decide n =>
    obtain ⟨e, here, taken⟩ := Option.bind_eq_some_iff.mp taken
    split at taken
    · cases taken
      refine .inr (.inl ⟨n, _, rfl, fun c _ => ⟨rfl, id, ?_⟩⟩)
      intro _ _ at_
      simp only at at_
      split_ifs at at_
    · simp at taken
  | capture n =>
    obtain ⟨e, here, -, rfl⟩ := exists_of_guarded taken
    refine .inr (.inl ⟨n, _, rfl, fun c _ => ⟨rfl, id, ?_⟩⟩)
    intro _ _ at_
    simp at at_
  | _ =>
    left
    simp only [ServeManager.step] at taken
    grind

theorem engine_before [DecidableEq Config]
    (taken : s.step ev = some s') {n : Nat} {e' : Engine Config} (here : s'.engines[n]? = some e') :
    (∃ e, s.engines[n]? = some e ∧ Goes s.child n e e') ∨
      (n = s.engines.length ∧ e'.monitor = .off ∧ ∃ pid starttime, ev = .spawn pid starttime ∧
        e'.identity = (pid, starttime)) := by
  rcases engines_of_step taken with same | ⟨m, f, same, goes⟩ | ⟨pid, starttime, config, origin, at_, same⟩
  · exact .inl ⟨e', same ▸ here, rfl, id, fun _ _ at_ => .inl at_⟩
  · rw [same] at here
    rcases getElem?_modify_some here with ⟨rfl, e, there, rfl⟩ | ⟨-, here⟩
    · exact .inl ⟨e, there, goes e there⟩
    · exact .inl ⟨e', here, rfl, id, fun _ _ at_ => .inl at_⟩
  · rw [same, List.getElem?_append] at here
    split_ifs at here with below
    · exact .inl ⟨e', here, rfl, id, fun _ _ at_ => .inl at_⟩
    · have last : n - s.engines.length = 0 := by
        by_contra other
        rw [List.getElem?_eq_none (by rw [List.length_singleton]; omega)] at here
        simp at here
      rw [last] at here
      cases here
      exact .inr ⟨by omega, rfl, pid, starttime, at_, rfl⟩

theorem engine_after [DecidableEq Config]
    (taken : s.step ev = some s') {n : Nat} {e : Engine Config} (here : s.engines[n]? = some e) :
    ∃ e', s'.engines[n]? = some e' ∧ e'.identity = e.identity := by
  rcases engines_of_step taken with same | ⟨m, f, same, goes⟩ | ⟨pid, starttime, config, origin, -, same⟩
  · exact ⟨e, same ▸ here, rfl⟩
  · rw [same]
    by_cases eq : m = n
    · subst eq
      exact ⟨f e, getElem?_modify_self here f, (goes e here).identity⟩
    · exact ⟨e, by simpa [eq] using here, rfl⟩
  · have below := (List.getElem?_eq_some_iff.mp here).1
    exact ⟨e, by rw [same, List.getElem?_append_left below]; exact here, rfl⟩

def Signals (s : ServeManager Config) (n : Nat) : Prop :=
  ∃ goal, s.holder = some (.signal n goal) ∨ s.holder = some (.asked n goal) ∨
    s.holder = some (.killed n goal)

theorem signals_of_step [DecidableEq Config]
    (taken : s.step ev = some s') {n : Nat} (signals : s'.Signals n) :
    s.Signals n ∨ (ev = .prepared ∧ ∃ goal, s.holder = some (.prepare n goal)) := by
  obtain ⟨goal, holder⟩ := signals
  have returns : ∀ (s : ServeManager Config) (g : StopGoal Config),
      ¬ ((s.stopReturns g).holder = some (.signal n goal) ∨
        (s.stopReturns g).holder = some (.asked n goal) ∨
        (s.stopReturns g).holder = some (.killed n goal)) := by
    intro s g
    cases g <;> simp [ServeManager.stopReturns]
  have raises : ∀ m (g : StopGoal Config), (s.stopRaises m g).holder = none := by
    intro m g
    cases g <;> rfl
  have stops : ∀ (s : ServeManager Config) (g : StopGoal Config),
      ¬ ((s.stop g).holder = some (.signal n goal) ∨ (s.stop g).holder = some (.asked n goal) ∨
        (s.stop g).holder = some (.killed n goal)) := by
    intro s g
    unfold ServeManager.stop
    match s.child with
    | none => exact returns _ g
    | some n => simp
  have enters : ∀ (s : ServeManager Config) config origin, s.holder = none →
      (s.enter config origin).2.holder = none ∨
        (s.enter config origin).2.holder = some (.spawn config origin) := by
    intro s config origin free
    unfold ServeManager.enter
    split_ifs <;> simp [free]
  have starts : ∀ (s : ServeManager Config) config, s.holder = none →
      (s.start config).2.holder = none ∨
        (s.start config).2.holder = some (.spawn config .client) := by
    intro s config free
    unfold ServeManager.start
    split_ifs
    · exact .inl free
    · exact enters _ config .client free
  cases ev with
  | restart k =>
    obtain ⟨thread, -, idle, rfl⟩ := exists_of_guarded taken
    have free := holder_of_idle idle
    have auto : (ServeManager.autoStart thread.config thread.trigger
        { s with restarts := s.restarts.eraseIdx k }).2.holder = none ∨
        (ServeManager.autoStart thread.config thread.trigger
          { s with restarts := s.restarts.eraseIdx k }).2.holder =
            some (.spawn thread.config (.restart thread.trigger)) := by
      unfold ServeManager.autoStart
      split_ifs
      · exact .inl free
      · exact enters _ _ _ free
    rcases auto with free | spawning
    · simp [free] at holder
    · simp [spawning] at holder
  | _ =>
    simp only [ServeManager.step] at taken
    unfold Signals
    grind [ServeManager.modify, holder_of_idle]

end ServeManager

end FreeSwarm.Daemon
