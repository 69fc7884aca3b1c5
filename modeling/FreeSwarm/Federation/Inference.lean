import FreeSwarm.Foundation.FairRun
import FreeSwarm.Foundation.Table
import Mathlib.Logic.Function.Basic

/-!
# The serving cap of the gateway

The gateway serves a client at most so many requests at once. A request is refused when that many are
in flight; otherwise it is counted after the usage was flushed, which lets others run in between. A
plain answer is counted down when it is complete, a stream when its generator ends.
-/

namespace FreeSwarm.Federation

open FreeSwarm.Foundation

/-- How many requests of a client are served at once. -/
def maxConcurrentPerClient : Nat := 8

/-- Where a request is. -/
inductive Phase where
  | flushing
  | serving
  | prepared
  | streaming
  /-- Its generator was left at a `yield`, and will be closed. -/
  | closing
  | ended
  | dropped
  deriving DecidableEq

/-- The request is counted, and did not end. -/
def Phase.Counted (phase : Phase) : Prop :=
  phase = .serving ∨ phase = .prepared ∨ phase = .streaming ∨ phase = .closing

instance Phase.decidableCounted (phase : Phase) : Decidable phase.Counted :=
  inferInstanceAs (Decidable (_ ∨ _))

/-- The model works for the request. -/
def Phase.Served (phase : Phase) : Prop := phase = .serving ∨ phase = .streaming

instance Phase.decidableServed (phase : Phase) : Decidable phase.Served :=
  inferInstanceAs (Decidable (_ ∨ _))

variable (Client : Type)

structure InferRequest where
  client : Client
  phase : Phase := .flushing
  increments : Nat := 0
  decrements : Nat := 0

/-- The gateway. The requests are listed in the order of their arrival. -/
structure Gateway where
  inflight : Client → Nat
  requests : List (InferRequest Client)

inductive GatewayEvent where
  | infer (client : Client)
  | enter (request : Nat) (stream : Bool)
  | cancelFlush (request : Nat)
  | finish (request : Nat)
  | startStream (request : Nat)
  | finishStream (request : Nat)
  | leaveStream (request : Nat)
  | closeStream (request : Nat)
  | dropStream (request : Nat)

namespace InferRequest
variable {Client : Type} (r : InferRequest Client)

def count (stream : Bool) : InferRequest Client :=
  { r with phase := if stream then .prepared else .serving, increments := r.increments + 1 }

/-- The request ends, and is counted down. -/
def release : InferRequest Client := { r with phase := .ended, decrements := r.decrements + 1 }

def CountedFor (client : Client) (r : InferRequest Client) : Prop :=
  r.client = client ∧ r.phase.Counted

def ServedFor (client : Client) (r : InferRequest Client) : Prop :=
  r.client = client ∧ r.phase.Served

instance decidableCountedFor [DecidableEq Client] (client : Client) :
    DecidablePred (CountedFor client) := fun _ => inferInstanceAs (Decidable (_ ∧ _))

instance decidableServedFor [DecidableEq Client] (client : Client) :
    DecidablePred (ServedFor client) := fun _ => inferInstanceAs (Decidable (_ ∧ _))

end InferRequest

namespace Gateway
variable {Client : Type} [DecidableEq Client] (limit : Nat) (g : Gateway Client)

variable (client : Client) (request : Nat)

/-- A request arrives, and is refused when too many are in flight. -/
def infer : Gateway Client :=
  if limit ≤ g.inflight client then g
  else { g with requests := g.requests ++ [{ client := client }] }

/-- One more request of a client is in flight. -/
def increment : Client → Nat :=
  Function.update g.inflight client (g.inflight client + 1)

/-- One less request of a client is in flight. -/
def decrement : Client → Nat :=
  Function.update g.inflight client (g.inflight client - 1)

def requestIn (phase : Phase) : Option (InferRequest Client) :=
  g.requests[request]?.filter fun r => r.phase = phase

def move (phase : Phase) (r : InferRequest Client) : Gateway Client :=
  { g with requests := g.requests.set request { r with phase := phase } }

def release (r : InferRequest Client) : Gateway Client :=
  { inflight := g.decrement r.client, requests := g.requests.set request r.release }

def count (stream : Bool) (r : InferRequest Client) : Gateway Client :=
  { inflight := g.increment r.client, requests := g.requests.set request (r.count stream) }

def step : GatewayEvent Client → Option (Gateway Client)
  | .infer client => some (g.infer limit client)
  | .enter request stream => (g.requestIn request .flushing).map (g.count request stream)
  | .cancelFlush request => (g.requestIn request .flushing).map (g.move request .ended)
  | .finish request => (g.requestIn request .serving).map (g.release request)
  | .startStream request => (g.requestIn request .prepared).map (g.move request .streaming)
  | .finishStream request => (g.requestIn request .streaming).map (g.release request)
  | .leaveStream request => (g.requestIn request .streaming).map (g.move request .closing)
  | .closeStream request => (g.requestIn request .closing).map (g.release request)
  | .dropStream request => (g.requestIn request .prepared).map (g.move request .dropped)

def counted : Nat := rowCount (InferRequest.CountedFor client) g.requests

def served : Nat := rowCount (InferRequest.ServedFor client) g.requests

structure Capped (g : Gateway Client) : Prop where
  inflight : ∀ client, g.inflight client ≤ limit
  served : ∀ client, g.served client ≤ limit
  counted : ∀ client, g.inflight client = g.counted client
  matched : ∀ r ∈ g.requests, r.phase = .ended ∨ r.phase = .dropped →
    r.decrements = r.increments ∧ r.increments ≤ 1

/-- A request is counted only while less than the cap are in flight, and every stream is started. -/
def Within (g : Gateway Client) : GatewayEvent Client → Prop
  | .enter request _ => ∀ r, g.requestIn request .flushing = some r → g.inflight r.client < limit
  | .dropStream _ => False
  | _ => True

end Gateway

/-! ## What the counters count -/

def InferRequest.Balanced {Client : Type} (r : InferRequest Client) : Prop :=
  match r.phase with
  | .flushing => r.increments = 0 ∧ r.decrements = 0
  | .serving | .prepared | .streaming | .closing => r.increments = 1 ∧ r.decrements = 0
  | .ended | .dropped => r.decrements = r.increments ∧ r.increments ≤ 1

namespace Gateway
variable {Client : Type} [DecidableEq Client] {limit : Nat} {g g' : Gateway Client}

/-- The requests are counted as they should, and within the cap. -/
structure Balanced (limit : Nat) (g : Gateway Client) : Prop where
  counted : ∀ client, g.inflight client = g.counted client
  inflight : ∀ client, g.inflight client ≤ limit
  requests : ∀ r ∈ g.requests, r.Balanced

variable {request : Nat}

variable {r : InferRequest Client} {phase : Phase}

omit [DecidableEq Client] in
theorem requestIn_some
    (found : g.requestIn request phase = some r) :
    g.requests[request]? = some r ∧ r.phase = phase := by
  obtain ⟨there, same⟩ := Option.filter_eq_some_iff.mp found
  exact ⟨there, of_decide_eq_true same⟩

theorem counted_set (r' : InferRequest Client) (client : Client)
    (there : g.requests[request]? = some r) :
    rowCount (InferRequest.CountedFor client) (g.requests.set request r') +
        (if r.CountedFor client then 1 else 0) =
      g.counted client + if r'.CountedFor client then 1 else 0 :=
  rowCount_set r' there

theorem balanced_set {r r' : InferRequest Client} {inflight : Client → Nat}
    (balanced : g.Balanced limit) (there : g.requests[request]? = some r)
    (same : r'.client = r.client) (fits : r'.Balanced)
    (changes : inflight r.client + (if r.phase.Counted then 1 else 0) =
      g.inflight r.client + if r'.phase.Counted then 1 else 0)
    (others : ∀ client, client ≠ r.client → inflight client = g.inflight client)
    (within : inflight r.client ≤ limit) :
    Balanced limit { inflight := inflight, requests := g.requests.set request r' } where
  counted client := by
    have counts := counted_set r' client there
    show inflight client = rowCount _ (g.requests.set request r')
    by_cases own : client = r.client
    · have mine : ∀ t : InferRequest Client, t.client = r.client →
          (t.CountedFor client ↔ t.phase.Counted) :=
        fun t owner => and_iff_right (owner.trans own.symm)
      simp only [mine r rfl, mine r' same, ← balanced.counted] at counts
      rw [own] at counts ⊢
      omega
    · have apart : ∀ t : InferRequest Client, t.client = r.client → ¬t.CountedFor client :=
        fun t owner both => own (both.1.symm.trans owner)
      rw [if_neg (apart r rfl), if_neg (apart r' same), ← balanced.counted] at counts
      rw [others client own]
      omega
  inflight client := by
    show inflight client ≤ limit
    by_cases own : client = r.client
    · rw [own]
      exact within
    · rw [others client own]
      exact balanced.inflight client
  requests t mem := by
    cases List.mem_or_eq_of_mem_set mem with
    | inl old => exact balanced.requests t old
    | inr new =>
      rw [new]
      exact fits

theorem Balanced.fits (balanced : g.Balanced limit) {request : Nat}
    (found : g.requestIn request phase = some r) :
    ({ r with phase := phase } : InferRequest Client).Balanced := by
  obtain ⟨there, here⟩ := requestIn_some found
  have fits := balanced.requests r (List.mem_of_getElem? there)
  simp only [InferRequest.Balanced, here] at fits ⊢
  exact fits

theorem balanced_move {phase phase' : Phase}
    (balanced : g.Balanced limit) (found : g.requestIn request phase = some r)
    (fits : ({ r with phase := phase' } : InferRequest Client).Balanced)
    (same : phase.Counted ↔ phase'.Counted) : Balanced limit (g.move request phase' r) := by
  obtain ⟨there, here⟩ := requestIn_some found
  have owner : ({ r with phase := phase' } : InferRequest Client).client = r.client := rfl
  apply balanced_set balanced there owner fits
  · rw [here]
    simp only [same]
  · exact fun _ _ => rfl
  · exact balanced.inflight r.client

theorem balanced_release
    (balanced : g.Balanced limit) (found : g.requestIn request phase = some r)
    (counters : r.increments = 1 ∧ r.decrements = 0) (counted : phase.Counted) :
    Balanced limit (g.release request r) := by
  obtain ⟨there, here⟩ := requestIn_some found
  have positive : 0 < g.inflight r.client := by
    rw [balanced.counted]
    apply List.countP_pos_iff.mpr
    exact ⟨r, List.mem_of_getElem? there, decide_eq_true ⟨rfl, here ▸ counted⟩⟩
  have ended : ¬r.release.phase.Counted := by
    show ¬Phase.ended.Counted
    decide
  have owner : r.release.client = r.client := rfl
  apply balanced_set balanced there owner
  · show r.decrements + 1 = r.increments ∧ r.increments ≤ 1
    omega
  · rw [here, if_pos counted, if_neg ended, decrement, Function.update_self]
    omega
  · exact fun client other => Function.update_of_ne other _ _
  · rw [decrement, Function.update_self]
    have := balanced.inflight r.client
    omega

theorem balanced_count {stream : Bool}
    (balanced : g.Balanced limit) (found : g.requestIn request .flushing = some r)
    (within : g.inflight r.client < limit) : Balanced limit (g.count request stream r) := by
  obtain ⟨there, here⟩ := requestIn_some found
  have fits : r.increments = 0 ∧ r.decrements = 0 := balanced.fits found
  have before : ¬r.phase.Counted := by
    rw [here]
    decide
  have after : (r.count stream).phase.Counted := by
    cases stream with
    | true => exact .inr (.inl rfl)
    | false => exact .inl rfl
  have owner : (r.count stream).client = r.client := rfl
  apply balanced_set balanced there owner
  · cases stream with
    | true => exact ⟨by rw [InferRequest.count, fits.1], fits.2⟩
    | false => exact ⟨by rw [InferRequest.count, fits.1], fits.2⟩
  · rw [if_neg before, if_pos after, increment, Function.update_self]
  · exact fun client other => Function.update_of_ne other _ _
  · rw [increment, Function.update_self]
    exact within

theorem balanced_step {ev : GatewayEvent Client} (balanced : g.Balanced limit)
    (within : g.Within limit ev) (taken : g.step limit ev = some g') : g'.Balanced limit := by
  cases ev with
  | infer client =>
    rw [← Option.some.inj taken, infer]
    split
    · exact balanced
    · refine ⟨fun other => ?_, balanced.inflight, fun r mem => ?_⟩
      · have uncounted : ¬({ client := client } : InferRequest Client).CountedFor other :=
          fun both => absurd both.2 (show ¬Phase.flushing.Counted by decide)
        rw [balanced.counted, counted, counted, rowCount, rowCount, List.countP_append,
          List.countP_singleton, if_neg (by simpa using uncounted)]
        rfl
      · cases List.mem_append.mp mem with
        | inl old => exact balanced.requests r old
        | inr new =>
          rw [List.mem_singleton.mp new]
          exact ⟨rfl, rfl⟩
  | enter request stream =>
    obtain ⟨r, found, rfl⟩ := Option.map_eq_some_iff.mp taken
    exact balanced_count balanced found (within r found)
  | cancelFlush request =>
    obtain ⟨r, found, rfl⟩ := Option.map_eq_some_iff.mp taken
    obtain ⟨none_, none'⟩ := balanced.fits found
    exact balanced_move balanced found ⟨none'.trans none_.symm, none_ ▸ Nat.zero_le 1⟩ (by decide)
  | finish request | finishStream request | closeStream request =>
    obtain ⟨r, found, rfl⟩ := Option.map_eq_some_iff.mp taken
    exact balanced_release balanced found (balanced.fits found) (by decide)
  | startStream request | leaveStream request =>
    obtain ⟨r, found, rfl⟩ := Option.map_eq_some_iff.mp taken
    have fits := balanced.fits found
    exact balanced_move balanced found fits (by decide)
  | dropStream request => exact within.elim

theorem served_le_counted (g : Gateway Client) (client : Client) :
    g.served client ≤ g.counted client := by
  apply List.countP_mono_left
  intro r _ served
  have both := of_decide_eq_true served
  apply decide_eq_true
  refine ⟨both.1, ?_⟩
  cases both.2 with
  | inl serving => exact .inl serving
  | inr streaming => exact .inr (.inr (.inl streaming))

theorem Balanced.capped (balanced : g.Balanced limit) : g.Capped limit where
  inflight := balanced.inflight
  served client := Nat.le_trans (served_le_counted g client)
    (balanced.counted client ▸ balanced.inflight client)
  counted := balanced.counted
  matched r mem over_ := by
    have fits := balanced.requests r mem
    cases over_ with
    | inl ended =>
      simp only [InferRequest.Balanced, ended] at fits
      exact fits
    | inr dropped =>
      simp only [InferRequest.Balanced, dropped] at fits
      exact fits

/-- A request that is counted at the cap exceeds it, and one whose stream is not started is never
counted down. -/
theorem not_capped_step {ev : GatewayEvent Client} (balanced : g.Balanced limit)
    (not_ : ¬g.Within limit ev) (taken : g.step limit ev = some g') : ¬g'.Capped limit := by
  intro capped
  cases ev with
  | enter request stream =>
    obtain ⟨r, found, rfl⟩ := Option.map_eq_some_iff.mp taken
    apply not_
    intro r' found'
    rw [found] at found'
    obtain rfl := Option.some.inj found'
    have few : g.increment r.client r.client ≤ limit := capped.inflight r.client
    rw [increment, Function.update_self] at few
    exact few
  | dropStream request =>
    obtain ⟨r, found, rfl⟩ := Option.map_eq_some_iff.mp taken
    obtain ⟨there, here⟩ := requestIn_some found
    have fits : r.increments = 1 ∧ r.decrements = 0 := balanced.fits found
    have inside := (List.getElem?_eq_some_iff.mp there).1
    have mem : ({ r with phase := .dropped } : InferRequest Client) ∈
        (g.move request .dropped r).requests :=
      List.mem_of_getElem? (List.getElem?_set_self inside)
    have matched := (capped.matched _ mem (.inr rfl)).1
    rw [show ({ r with phase := .dropped } : InferRequest Client).decrements = r.decrements from rfl,
      fits.2] at matched
    rw [show ({ r with phase := .dropped } : InferRequest Client).increments = r.increments from rfl,
      fits.1] at matched
    cases matched
  | _ => exact not_ trivial

def quiet : Gateway Client := { inflight := fun _ => 0, requests := [] }

theorem balanced_quiet : (quiet : Gateway Client).Balanced limit where
  counted _ := rfl
  inflight _ := Nat.zero_le _
  requests _ mem := absurd mem List.not_mem_nil

/-- The gateway keeps its cap in every state of a run exactly if no request is counted at the cap,
because another one was counted behind its check, and the generator of every stream is started. -/
theorem capped_iff (run : Run (step limit : Gateway Client → _ → _) Always)
    (begins : run.states 0 = quiet) :
    (∀ n, (run.states n).Capped limit) ↔
      ∀ n ev, run.events n = some ev → (run.states n).Within limit ev :=
  run.holds_iff (Balanced limit) (Capped limit) (Within limit) (begins ▸ balanced_quiet)
    (fun _ balanced => balanced.capped)
    (fun _ _ _ balanced _ within taken => balanced_step balanced within taken)
    (fun _ _ _ balanced _ not_ taken => not_capped_step balanced not_ taken)

/-- A stream is relayed while its client asks for a plain answer. -/
def relayed : Run (step maxConcurrentPerClient : Gateway Nat → _ → _) Always :=
  .ofEvents [.infer 0, .enter 0 true, .startStream 0, .infer 0, .enter 1 false, .finish 1,
    .leaveStream 0, .closeStream 0] quiet
    { inflight := Function.update (Function.update (Function.update (Function.update (fun _ => 0)
        0 1) 0 2) 0 1) 0 0
      requests := [⟨0, .ended, 1, 1⟩, ⟨0, .ended, 1, 1⟩] }
    rfl

theorem relayed_capped : (relayed.states 8).Capped maxConcurrentPerClient := by
  refine (capped_iff relayed rfl).mpr (fun n ev event => ?_) 8
  have inside := (List.getElem?_eq_some_iff.mp event).1
  match n with
  | 0 | 2 | 3 | 5 | 6 | 7 =>
    rw [← Option.some.inj event]
    trivial
  | 1 | 4 =>
    rw [← Option.some.inj event]
    intro r found
    rw [← Option.some.inj found]
    decide
  | n + 8 => exact absurd inside (by simp)

/-- A client with a stream whose response is given up before it is started. -/
def abandoned : Gateway Nat :=
  { inflight := Function.update (fun _ => 0) 0 1, requests := [⟨0, .dropped, 1, 0⟩] }

/-- Nine requests pass the check before one of them is counted. -/
def crowded : Gateway Nat :=
  { inflight := Function.update (Function.update (Function.update (Function.update (Function.update
      (Function.update (Function.update (Function.update (Function.update (fun _ => 0) 0 1) 0 2) 0 3)
        0 4) 0 5) 0 6) 0 7) 0 8) 0 9
    requests := List.replicate 9 ⟨0, .serving, 1, 0⟩ }

/-- They are all served. -/
def rush : Run (step maxConcurrentPerClient : Gateway Nat → _ → _) Always :=
  .ofEvents (List.replicate 9 (.infer 0) ++ (List.range 9).map fun request => .enter request false)
    quiet crowded rfl

/-- The cap is exceeded, and a response that is never consumed keeps its place for ever. -/
theorem rush_exceeds : ¬(∀ n, (rush.states n).Capped maxConcurrentPerClient) ∧
    [.infer 0, .enter 0 true, .dropStream 0].foldlM (step maxConcurrentPerClient) quiet =
      some abandoned ∧ ¬abandoned.Capped maxConcurrentPerClient := by
  refine ⟨fun all => ?_, rfl, fun capped => ?_⟩
  · have last : rush.states 18 = crowded := Run.ofEvents_last _ 18 (Nat.le_refl _)
    have few := (all 18).inflight 0
    rw [last] at few
    exact absurd few (by decide)
  · have matched := (capped.matched ⟨0, .dropped, 1, 0⟩ List.mem_cons_self (.inr rfl)).1
    exact absurd matched (by decide)

end Gateway

end FreeSwarm.Federation
