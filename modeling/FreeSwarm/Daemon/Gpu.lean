import FreeSwarm.Daemon.CheckpointRuns
import FreeSwarm.Daemon.ServeSteps

/-!
# The routes to the GPU

The routes that start a conversion or a bench stop the engine first and go on when that has succeeded.
The engine, the conversions and the benches are three managers that do not look at each other.
-/

namespace FreeSwarm.Daemon

open FreeSwarm.Foundation

/-! ## The routes -/

inductive GpuUse (Id : Type) where
  | checkpoint (id : Id)
  | bench
  deriving DecidableEq

/-- How far a request has come. -/
inductive GpuPhase where
  | asked
  | stopping
  | stopped
  | running
  | done
  deriving DecidableEq

structure GpuRequest (Id : Type) where
  use : GpuUse Id
  phase : GpuPhase

structure GpuDaemon (Config Id : Type) where
  serve : ServeManager Config
  checkpoints : CheckpointManager Id
  requests : List (GpuRequest Id)

/-- Something that happens. -/
inductive GpuEvent (Config Id : Type) where
  | serve (ev : ServeEvent Config)
  | checkpoint (ev : CheckpointEvent Id)
  | ask (use : GpuUse Id)
  | stop (k : Nat)
  | start (k : Nat)
  | drop (k : Nat)
  | exit (k : Nat)

def GpuRequest.advance {Config Id : Type} (ev : ServeEvent Config) (r : GpuRequest Id) :
    GpuRequest Id :=
  match r.phase, ev with
  | .stopping, .stopReturns => { r with phase := .stopped }
  | .stopping, .prepareFails | .stopping, .signalFails => { r with phase := .done }
  | _, _ => r

def StartCall.Working {Id : Type} (call : StartCall Id) : Prop := call.InWindow ∨ call.Alive

namespace GpuDaemon
variable {Config Id : Type}

def boot (autoRestart : Bool) (adopted : Option (Config × Int × Option Int)) : GpuDaemon Config Id :=
  { serve := .boot autoRestart adopted, checkpoints := .fresh, requests := [] }

/-- A request goes on. -/
def setPhase (k : Nat) (phase : GpuPhase) (s : GpuDaemon Config Id) : GpuDaemon Config Id :=
  { s with requests := s.requests.modify k fun r => { r with phase := phase } }

/-- What an event does, when it can happen. -/
def step [DecidableEq Config] [DecidableEq Id] (s : GpuDaemon Config Id) :
    GpuEvent Config Id → Option (GpuDaemon Config Id)
  | .serve ev => do
    let serve ← s.serve.step ev
    some { s with serve := serve, requests := s.requests.map (·.advance ev) }
  | .checkpoint (.start _) => none
  | .checkpoint ev => do
    let checkpoints ← s.checkpoints.step ev
    some { s with checkpoints := checkpoints }
  | .ask use => some { s with requests := s.requests ++ [⟨use, .asked⟩] }
  | .stop k => do
    let r ← s.requests[k]?
    if r.phase = .asked then
      let serve ← s.serve.step .stop
      some (setPhase k (if serve.holder.isNone then .stopped else .stopping) { s with serve := serve })
    else none
  | .start k => do
    let r ← s.requests[k]?
    match r.phase, r.use with
    | .stopped, .checkpoint id =>
      some (setPhase k .done { s with checkpoints := (s.checkpoints.start id).2 })
    | .stopped, .bench => some (s.setPhase k .running)
    | _, _ => none
  | .drop k => do
    let r ← s.requests[k]?
    if r.phase = .stopped ∧ r.use = .bench then some (s.setPhase k .done) else none
  | .exit k => do
    let r ← s.requests[k]?
    if r.phase = .running then some (s.setPhase k .done) else none

/-- The states that are reached by steps that all meet a condition. -/
def Reachable [DecidableEq Config] [DecidableEq Id]
    (meets : GpuDaemon Config Id → GpuEvent Config Id → Prop) (s : GpuDaemon Config Id) : Prop :=
  ∃ autoRestart adopted, Reaches step meets (boot autoRestart adopted) s

/-! ## What is to hold -/

variable (s : GpuDaemon Config Id)

def EngineAlive : Prop :=
  ∃ (n : Nat) (e : Engine Config), s.serve.engines[n]? = some e ∧ e.exited = false

def ConversionAlive : Prop :=
  ∃ (n : Nat) (call : StartCall Id), s.checkpoints.calls[n]? = some call ∧ call.Alive

def BenchAlive : Prop := ∃ r ∈ s.requests, r.phase = .running

/-- No two kinds of process are alive at once. -/
structure Exclusive : Prop where
  engineConversion : ¬ (s.EngineAlive ∧ s.ConversionAlive)
  engineBench : ¬ (s.EngineAlive ∧ s.BenchAlive)
  conversionBench : ¬ (s.ConversionAlive ∧ s.BenchAlive)

def Converting : Prop :=
  ∃ (n : Nat) (call : StartCall Id), s.checkpoints.calls[n]? = some call ∧ call.Working

/-- A request has stopped the engine and has not come to its end. -/
def Claimed : Prop :=
  ∃ r ∈ s.requests, r.phase = .stopped ∨ r.phase = .running

/-- Requests of different kinds do not overlap: no start of an engine is admitted while a conversion or
a bench is under way, no conversion is started beside a bench, and no bench beside a conversion. -/
def Apart : GpuEvent Config Id → Prop
  | .serve (.start _) | .serve .resume =>
    s.serve.shutdownRequested = false → ¬ s.Converting ∧ ¬ s.Claimed
  | .start k => ∀ r, s.requests[k]? = some r →
    match r.use with
    | .checkpoint _ => ¬ s.BenchAlive
    | .bench => ¬ s.Converting
  | _ => True

end GpuDaemon

/-! ## What the manager of the conversions does -/

namespace CheckpointManager
variable {Id : Type}

def Follows (before after : List (StartCall Id)) : Prop :=
  ∀ (n : Nat) (call' : StartCall Id), after[n]? = some call' → call'.Working →
    ∃ call, before[n]? = some call ∧ call.Working

theorem Follows.refl (calls : List (StartCall Id)) : Follows calls calls :=
  fun _ call here working => ⟨call, here, working⟩

theorem Follows.trans {first second third : List (StartCall Id)} (one : Follows first second)
    (two : Follows second third) : Follows first third := by
  intro n call here working
  obtain ⟨between, there, working⟩ := two n call here working
  exact one n between there working

theorem Follows.modify {calls : List (StartCall Id)} {n : Nat} {f : StartCall Id → StartCall Id}
    (keeps : ∀ call, calls[n]? = some call → (f call).Working → call.Working) :
    Follows calls (calls.modify n f) := by
  intro m call' mem working
  rcases getElem?_modify_some mem with ⟨rfl, call, here, rfl⟩ | ⟨-, here⟩
  · exact ⟨call, here, keeps call here working⟩
  · exact ⟨call', here, working⟩

theorem follows_beginTerminate (n : Nat) (s : CheckpointManager Id) :
    Follows s.calls (s.beginTerminate n).calls := by
  refine Follows.modify fun call _ working => ?_
  split_ifs at working
  · exact working
  · exact working

theorem follows_of_step [DecidableEq Id] {s s' : CheckpointManager Id} {ev : CheckpointEvent Id}
    (other : ∀ id, ev ≠ .start id) (taken : s.step ev = some s') : Follows s.calls s'.calls := by
  cases ev with
  | start id => exact absurd rfl (other id)
  | spawn n pid =>
    obtain ⟨call, here, ⟨spawning, -⟩, rfl⟩ := exists_of_guarded taken
    refine Follows.modify fun c mem _ => ?_
    cases here.symm.trans mem
    exact .inl (.inl spawning)
  | spawnFails n =>
    obtain ⟨call, here, -, rfl⟩ := exists_of_guarded taken
    have failed : Follows s.calls (s.modify n fun call => { call with phase := .failed }).calls := by
      refine Follows.modify fun c _ working => ?_
      rcases working with (phase | phase) | ⟨phase | phase | phase, -⟩ <;> simp at phase
    unfold release
    split
    · exact failed
    · split_ifs
      · exact failed
      · exact failed
  | record n =>
    obtain ⟨call, here, spawned, rfl⟩ := exists_of_guarded taken
    have working : ∀ c, s.calls[n]? = some c → c.Working := by
      intro c mem
      cases here.symm.trans mem
      exact .inl (.inr spawned)
    unfold CheckpointManager.record
    split
    · exact Follows.modify fun c mem _ => working c mem
    · have recorded : Follows s.calls (s.calls.modify n fun call =>
          { call with phase := .recorded, monitor := .waiting }) :=
        Follows.modify fun c mem _ => working c mem
      simp only
      split_ifs
      · exact recorded.trans (follows_beginTerminate n _)
      · exact recorded
  | exit n code =>
    obtain ⟨call, here, -, rfl⟩ := exists_of_guarded taken
    refine Follows.modify fun c _ working => working.imp id fun alive => ?_
    simp [StartCall.Alive] at alive
  | reap n | terminate n | escalate n =>
    obtain ⟨call, here, -, rfl⟩ := exists_of_guarded taken
    exact Follows.modify fun _ _ working => working
  | book n =>
    obtain ⟨call, here, -, rfl⟩ := exists_of_guarded taken
    have booked : Follows s.calls (s.calls.modify n fun call => { call with monitor := .done }) :=
      Follows.modify fun _ _ working => working
    unfold CheckpointManager.book
    split
    · exact booked
    · rename_i job current
      by_cases same : job.id = call.id
      · rw [if_pos same]
        exact booked
      · rw [if_neg same]
        exact booked
  | cancel id =>
    cases taken
    unfold CheckpointManager.cancel
    split
    · exact .refl _
    · rename_i job current
      by_cases idle : job.id ≠ id ∨ job.state ≠ .running
      · rw [if_pos idle]
        exact .refl _
      · rw [if_neg idle]
        have cancelled : Follows s.calls (s.calls.modify job.owner fun call =>
            { call with cancelled := true }) := Follows.modify fun _ _ working => working
        simp only
        split
        · by_cases there : 0 < job.pid
          · rw [if_pos there]
            exact cancelled.trans (follows_beginTerminate _ _)
          · rw [if_neg there]
            exact cancelled
        · exact cancelled

end CheckpointManager

/-! ## The invariant -/

namespace GpuDaemon
variable {Config Id : Type}

/-- What holds in every state that is reached while the requests are kept apart. -/
structure Inv (s : GpuDaemon Config Id) : Prop where
  serve : s.serve.Inv
  stopping : ∀ r ∈ s.requests, r.phase = .stopping → s.serve.Stops
  stopped : s.Converting ∨ s.Claimed → s.serve.stopped = true
  apart : ¬ (s.Converting ∧ s.BenchAlive)

variable {s : GpuDaemon Config Id}

theorem Inv.exclusive (inv : Inv s) : Exclusive s := by
  have converting : s.ConversionAlive → s.Converting :=
    fun ⟨n, call, here, alive⟩ => ⟨n, call, here, .inr alive⟩
  have claimed : s.BenchAlive → s.Claimed := fun ⟨r, mem, running⟩ => ⟨r, mem, .inr running⟩
  have dead : s.Converting ∨ s.Claimed → ¬ s.EngineAlive := by
    rintro busy ⟨n, e, here, alive⟩
    have exited := inv.serve.safe.stopped (inv.stopped busy) n e here
    exact absurd (alive.symm.trans exited) (by simp)
  refine ⟨?_, ?_, ?_⟩
  · rintro ⟨engine, conversion⟩
    exact dead (.inl (converting conversion)) engine
  · rintro ⟨engine, bench⟩
    exact dead (.inr (claimed bench)) engine
  · rintro ⟨conversion, bench⟩
    exact inv.apart ⟨converting conversion, bench⟩

theorem inv_boot (autoRestart : Bool) (adopted : Option (Config × Int × Option Int)) :
    Inv (boot autoRestart adopted : GpuDaemon Config Id) := by
  have none_ : ¬ (boot autoRestart adopted : GpuDaemon Config Id).Converting := by
    rintro ⟨n, call, here, -⟩
    simp [boot, CheckpointManager.fresh] at here
  refine ⟨ServeManager.inv_boot autoRestart adopted, fun r mem => by simp [boot] at mem, ?_,
    fun both => none_ both.1⟩
  rintro (converting | ⟨r, mem, -⟩)
  · exact absurd converting none_
  · simp [boot] at mem

theorem mem_modify {requests : List (GpuRequest Id)} {k : Nat} {f : GpuRequest Id → GpuRequest Id}
    {r : GpuRequest Id} (mem : r ∈ requests.modify k f) :
    r ∈ requests ∨ ∃ before, requests[k]? = some before ∧ r = f before := by
  obtain ⟨n, here⟩ := List.mem_iff_getElem?.mp mem
  rw [List.getElem?_modify] at here
  obtain ⟨before, there, same⟩ := Option.map_eq_some_iff.mp here
  by_cases eq : k = n
  · subst eq
    rw [if_pos rfl] at same
    exact .inr ⟨before, there, same.symm⟩
  · rw [if_neg eq] at same
    exact .inl (same ▸ List.mem_of_getElem? there)

theorem claimed_of_done {k : Nat}
    (claimed : (s.setPhase k .done).Claimed) : s.Claimed := by
  obtain ⟨r, mem, phase⟩ := claimed
  rcases mem_modify mem with mem | ⟨before, -, rfl⟩
  · exact ⟨r, mem, phase⟩
  · rcases phase with phase | phase <;> simp at phase

theorem benchAlive_of_done {k : Nat}
    (alive : (s.setPhase k .done).BenchAlive) : s.BenchAlive := by
  obtain ⟨r, mem, phase⟩ := alive
  rcases mem_modify mem with mem | ⟨before, -, rfl⟩
  · exact ⟨r, mem, phase⟩
  · simp at phase

theorem Inv.finish (inv : Inv s) (k : Nat) : Inv (s.setPhase k .done) where
  serve := inv.serve
  stopping r mem phase := by
    rcases mem_modify mem with mem | ⟨before, -, rfl⟩
    · exact inv.stopping r mem phase
    · simp at phase
  stopped busy := inv.stopped (busy.imp_right claimed_of_done)
  apart both := inv.apart ⟨both.1, benchAlive_of_done both.2⟩

theorem Inv.serveStep [DecidableEq Config] {s : GpuDaemon Config Id} (inv : Inv s)
    {ev : ServeEvent Config} {serve : ServeManager Config} (taken : s.serve.step ev = some serve)
    (apart : s.serve.shutdownRequested = false → (ev = .resume ∨ ∃ config, ev = .start config) →
      ¬ s.Converting ∧ ¬ s.Claimed) :
    Inv { s with serve := serve, requests := s.requests.map (·.advance ev) } := by
  have keeps : s.serve.stopped = true → s.Converting ∨ s.Claimed → serve.stopped = true := by
    intro stopped busy
    refine (ServeManager.stopped_of_step stopped taken).resolve_right ?_
    rintro ⟨shut, admits⟩
    obtain ⟨notConverting, notClaimed⟩ := apart shut admits
    exact busy.elim notConverting notClaimed
  have running : ∀ r : GpuRequest Id, (r.advance ev).phase = .running → r.phase = .running := by
    intro r phase
    unfold GpuRequest.advance at phase
    split at phase <;> simp_all
  refine ⟨inv.serve.step taken, fun r' mem phase => ?_, fun busy => ?_, fun both => ?_⟩
  · obtain ⟨r, here, rfl⟩ := List.mem_map.mp mem
    have before : r.phase = .stopping ∧ ev ≠ .prepareFails ∧ ev ≠ .signalFails ∧
        ev ≠ .stopReturns := by
      unfold GpuRequest.advance at phase
      split at phase <;> simp_all
    obtain ⟨stopping, one, two, three⟩ := before
    exact ((((inv.stopping r here stopping).step taken).2.resolve_right fun other => by
      rcases other with other | other | other
      · exact one other
      · exact two other
      · exact three other))
  · rcases busy with converting | ⟨r', mem, phase⟩
    · exact keeps (inv.stopped (.inl converting)) (.inl converting)
    · obtain ⟨r, here, rfl⟩ := List.mem_map.mp mem
      have before : (r.phase = .stopped ∨ r.phase = .running) ∨
          (r.phase = .stopping ∧ ev = .stopReturns) := by
        unfold GpuRequest.advance at phase
        split at phase <;> simp_all
      rcases before with phase | ⟨stopping, returns⟩
      · have claimed : s.Claimed := ⟨r, here, phase⟩
        exact keeps (inv.stopped (.inr claimed)) (.inr claimed)
      · exact ((inv.stopping r here stopping).step taken).1 returns
  · obtain ⟨converting, r', mem, phase⟩ := both
    obtain ⟨r, here, rfl⟩ := List.mem_map.mp mem
    exact inv.apart ⟨converting, r, here, running r phase⟩

theorem Inv.stop [DecidableEq Config] {s : GpuDaemon Config Id} (inv : Inv s) (k : Nat)
    {serve : ServeManager Config} (taken : s.serve.step .stop = some serve) :
    Inv (setPhase k (if serve.holder.isNone then .stopped else .stopping)
      { s with serve := serve }) := by
  have idle : ∀ r ∈ s.requests, r.phase ≠ .stopping := by
    intro r mem phase
    obtain ⟨free, -⟩ := Option.ite_none_right_eq_some.mp taken
    obtain ⟨n, holder⟩ := inv.stopping r mem phase
    simp [ServeManager.holder_of_idle free] at holder
  have keeps : s.Converting ∨ s.Claimed → serve.stopped = true := fun busy =>
    (ServeManager.stopped_of_step (inv.stopped busy) taken).resolve_right (by simp)
  refine ⟨inv.serve.step taken, fun r mem phase => ?_, fun busy => ?_, fun both => ?_⟩
  · rcases mem_modify mem with mem | ⟨before, -, rfl⟩
    · exact absurd phase (idle r mem)
    · rcases ServeManager.stops_or_stopped taken with ⟨free, -⟩ | ⟨-, stops⟩
      · simp [free] at phase
      · exact stops
  · rcases busy with converting | ⟨r, mem, phase⟩
    · exact keeps (.inl converting)
    · rcases mem_modify mem with mem | ⟨before, -, rfl⟩
      · exact keeps (.inr ⟨r, mem, phase⟩)
      · rcases ServeManager.stops_or_stopped taken with ⟨-, stopped⟩ | ⟨busy, -⟩
        · exact stopped
        · simp [busy] at phase
  · obtain ⟨converting, r, mem, phase⟩ := both
    rcases mem_modify mem with mem | ⟨before, -, rfl⟩
    · exact inv.apart ⟨converting, r, mem, phase⟩
    · simp only at phase
      split_ifs at phase

theorem Inv.step [DecidableEq Config] [DecidableEq Id] {s s' : GpuDaemon Config Id} (inv : Inv s)
    {ev : GpuEvent Config Id} (apart : s.Apart ev) (taken : s.step ev = some s') : Inv s' := by
  cases ev with
  | serve ev =>
    obtain ⟨serve, stepped, same⟩ := Option.bind_eq_some_iff.mp taken
    cases same
    refine inv.serveStep stepped fun shut admits => ?_
    rcases admits with rfl | ⟨config, rfl⟩
    · exact apart shut
    · exact apart shut
  | checkpoint ev =>
    have stepped : (∀ id, ev ≠ .start id) ∧ ∃ checkpoints, s.checkpoints.step ev = some checkpoints ∧
        { s with checkpoints := checkpoints } = s' := by
      cases ev with
      | start id => simp [GpuDaemon.step] at taken
      | _ =>
        refine ⟨by simp, ?_⟩
        simp only [GpuDaemon.step, bind, Option.bind_eq_some_iff] at taken
        obtain ⟨checkpoints, stepped, same⟩ := taken
        exact ⟨checkpoints, stepped, Option.some.inj same⟩
    obtain ⟨other, checkpoints, stepped, rfl⟩ := stepped
    have before : ({ s with checkpoints := checkpoints } : GpuDaemon Config Id).Converting →
        s.Converting := by
      rintro ⟨n, call, here, working⟩
      obtain ⟨call', here', working'⟩ :=
        CheckpointManager.follows_of_step other stepped n call here working
      exact ⟨n, call', here', working'⟩
    exact ⟨inv.serve, inv.stopping, fun busy => inv.stopped (busy.imp_left before),
      fun both => inv.apart ⟨before both.1, both.2⟩⟩
  | ask use =>
    cases taken
    have old : ∀ r ∈ s.requests ++ [⟨use, .asked⟩], r.phase ≠ .asked → r ∈ s.requests := by
      intro r mem phase
      rcases mem_concat mem with mem | rfl
      · exact mem
      · exact absurd rfl phase
    refine ⟨inv.serve, fun r mem phase => ?_, fun busy => inv.stopped ?_, fun both => ?_⟩
    · exact inv.stopping r (old r mem (by simp [phase])) phase
    · refine busy.imp_right ?_
      rintro ⟨r, mem, phase⟩
      exact ⟨r, old r mem (by rcases phase with phase | phase <;> simp [phase]), phase⟩
    · obtain ⟨converting, r, mem, phase⟩ := both
      exact inv.apart ⟨converting, r, old r mem (by simp [phase]), phase⟩
  | stop k =>
    obtain ⟨r, here, taken⟩ := Option.bind_eq_some_iff.mp taken
    obtain ⟨-, taken⟩ := Option.ite_none_right_eq_some.mp taken
    obtain ⟨serve, stepped, same⟩ := Option.bind_eq_some_iff.mp taken
    cases same
    exact inv.stop k stepped
  | start k =>
    obtain ⟨r, here, taken⟩ := Option.bind_eq_some_iff.mp taken
    have apart := apart r here
    split at taken
    · rename_i id phase use
      cases taken
      have stopped := inv.stopped (.inr ⟨r, List.mem_of_getElem? here, .inl phase⟩)
      have noBench : ¬ s.BenchAlive := by simpa [use] using apart
      refine Inv.finish (s := { s with checkpoints := (s.checkpoints.start id).2 }) ?_ k
      exact ⟨inv.serve, inv.stopping, fun _ => stopped, fun both => noBench both.2⟩
    · rename_i phase use
      cases taken
      have stopped := inv.stopped (.inr ⟨r, List.mem_of_getElem? here, .inl phase⟩)
      have noConversion : ¬ s.Converting := by simpa [use] using apart
      refine ⟨inv.serve, fun r mem phase => ?_, fun _ => stopped, fun both => noConversion both.1⟩
      rcases mem_modify mem with mem | ⟨before, -, rfl⟩
      · exact inv.stopping r mem phase
      · simp at phase
    · simp at taken
  | drop k | exit k =>
    obtain ⟨r, here, -, rfl⟩ := exists_of_guarded taken
    exact inv.finish k

/-- While the requests are kept apart, no two kinds of process are alive at once. -/
theorem exclusive_of_apart [DecidableEq Config] [DecidableEq Id] {s : GpuDaemon Config Id}
    (reached : Reachable Apart s) : Exclusive s := by
  obtain ⟨autoRestart, adopted, reached⟩ := reached
  exact (reached.invariant Inv (inv_boot autoRestart adopted)
    fun _ _ _ inv apart taken => inv.step apart taken).exclusive

theorem apart_of_alone {use : GpuUse Id}
    (alone : s.requests = [⟨use, .stopped⟩]) (none_ : s.checkpoints.calls = []) :
    s.Apart (.start 0) := by
  rintro r here
  obtain rfl : r = ⟨use, .stopped⟩ := by simpa [alone] using here.symm
  cases use with
  | checkpoint id =>
    rintro ⟨r, mem, phase⟩
    obtain rfl : r = ⟨.checkpoint id, .stopped⟩ := by simpa [alone] using mem
    simp at phase
  | bench =>
    rintro ⟨n, call, mem, -⟩
    simp [none_] at mem

/-- A running engine is stopped for a conversion. -/
theorem exclusive_of_apart_conversion :
    ∃ s : GpuDaemon Nat Nat, Reachable Apart s ∧
      s.serve.engines.map (·.exited) = [true] ∧ s.ConversionAlive ∧ Exclusive s := by
  have begins : Reaches step Apart (boot false (some (7, 100, none)) : GpuDaemon Nat Nat) _ := .refl
  have stopped := begins.run
    [.ask (.checkpoint 1), .stop 0, .serve .prepared, .serve .terminate, .serve (.exit 0),
      .serve (.sample 0), .serve (.clear 0), .serve (.reap 0), .serve .stopReturns]
    (by simp [Apart]) rfl
  have started := (stopped.step (apart_of_alone rfl rfl) rfl).run [.checkpoint (.spawn 0 101)] (by simp [Apart]) rfl
  have reached : Reachable Apart _ := ⟨false, some (7, 100, none), started⟩
  exact ⟨_, reached, rfl, ⟨0, _, rfl, .inl rfl, rfl⟩, exclusive_of_apart reached⟩

/-- An engine is started beside a bench. -/
theorem not_exclusive_of_start : ∃ s : GpuDaemon Nat Nat, Reachable Always s ∧ ¬ Exclusive s := by
  have begins : Reaches step Always (boot false none : GpuDaemon Nat Nat) _ := .refl
  have both := begins.run
    [.ask .bench, .stop 0, .start 0, .serve (.start 7), .serve (.spawn 100 none)]
    (fun _ _ _ => trivial) rfl
  refine ⟨_, ⟨false, none, both⟩, fun exclusive => exclusive.engineBench ⟨?_, ?_⟩⟩
  · exact ⟨0, _, rfl, rfl⟩
  · exact ⟨_, List.mem_singleton.mpr rfl, rfl⟩

end GpuDaemon

end FreeSwarm.Daemon
