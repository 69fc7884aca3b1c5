import FreeSwarm.Daemon.Accounting

/-!
# Runs of the accounting

No engine is signalled without a receipt, and each engine that has ended has its receipts under
identifiers of its own: one, unless a stop of it was tried again and read totals that were not sealed.
-/

namespace FreeSwarm.Daemon

open FreeSwarm.Foundation

/-! ## What the supervisor does -/

namespace ServeManager
variable {Config : Type}

/-- What the accounting needs to know of a step: the engines stay the processes that they were, a monitor
that has read the child has found its engine, and a stop comes to its signals by way of a receipt. -/
structure Forth (s s' : ServeManager Config) (prepared : Prop) : Prop where
  inv : s'.Inv
  before : ∀ (n : Nat) (e' : Engine Config), s'.engines[n]? = some e' →
    ∃ e, s.engines[n]? = some e ∧ e'.identity = e.identity ∧ (e.exited = true → e'.exited = true) ∧
      ∀ wasStopping isCurrent, e'.monitor = .sampled wasStopping isCurrent →
        e.monitor = .sampled wasStopping isCurrent ∨ isCurrent = true
  after : ∀ (n : Nat) (e : Engine Config), s.engines[n]? = some e →
    ∃ e', s'.engines[n]? = some e' ∧ e'.identity = e.identity
  signals : ∀ n, s'.Signals n → s.Signals n ∨ (prepared ∧ ∃ goal, s.holder = some (.prepare n goal))

theorem Goes.current {s : ServeManager Config} (inv : s.Inv) {n : Nat} {e e' : Engine Config}
    (there : s.engines[n]? = some e) (goes : Goes s.child n e e') {wasStopping isCurrent : Bool}
    (at_ : e'.monitor = .sampled wasStopping isCurrent) :
    e.monitor = .sampled wasStopping isCurrent ∨ isCurrent = true := by
  rcases goes.sampled wasStopping isCurrent at_ with before | ⟨waiting, same⟩
  · exact .inl before
  · -- An engine that is to be recorded has no monitor yet.
    have child := (inv.engines n e there).held (by simp [waiting, WatchPhase.held])
    have current : s.child = some n := by
      refine child.resolve_right fun record => ?_
      have transaction := inv.holder
      simp only [HolderInv, record] at transaction
      obtain ⟨-, -, -, c, mem, off⟩ := transaction
      cases there.symm.trans mem
      simp [waiting] at off
    exact .inr (by simp [same, current])

theorem Forth.refl {s : ServeManager Config} (inv : s.Inv) : Forth s s False where
  inv := inv
  before _ e here := ⟨e, here, rfl, id, fun _ _ at_ => .inl at_⟩
  after _ e here := ⟨e, here, rfl⟩
  signals _ signals := .inl signals

theorem forth_of_step [DecidableEq Config] {s s' : ServeManager Config} (inv : s.Inv)
    {ev : ServeEvent Config} (taken : s.step ev = some s')
    (other : ∀ pid starttime, ev ≠ .spawn pid starttime) : Forth s s' (ev = .prepared) where
  inv := inv.step taken
  before n e' here := by
    rcases engine_before taken here with ⟨e, there, goes⟩ | ⟨-, -, pid, starttime, at_, -⟩
    · exact ⟨e, there, goes.identity, goes.exited, fun _ _ at_ => goes.current inv there at_⟩
    · exact absurd at_ (other pid starttime)
  after _ _ here := engine_after taken here
  signals _ signals := signals_of_step taken signals

end ServeManager

namespace AccountedServe
variable {Inst : Type}

/-! ## What is to hold -/

variable (s : AccountedServe Inst) (launched : List (Identity × Option Inst))

def HasReceipt (i : Identity) : Prop := ∃ id, (id, i) ∈ s.written

/-- Each engine that has ended has exactly one receipt, and none is signalled before it has one. -/
structure SealedOnce : Prop where
  signalled : ∀ i ∈ s.signalled, s.HasReceipt i
  ended : ∀ i ∈ s.ended, s.HasReceipt i
  own : ∀ id i j, (id, i) ∈ s.written → (id, j) ∈ s.written → i = j
  once : ∀ i ∈ s.ended, ∀ id id', (id, i) ∈ s.written → (id', i) ∈ s.written → id = id'

/-- Each engine that has ended has receipts of its own, and none is signalled before it has one. There is
one, unless a stop was tried again and read totals that were not sealed. -/
structure Accounted : Prop where
  signalled : ∀ i ∈ s.signalled, s.HasReceipt i
  ended : ∀ i ∈ s.ended, s.HasReceipt i
  own : ∀ id i j, (id, i) ∈ s.written → (id, j) ∈ s.written → i = j
  /-- Receipts of one engine are of one identifier, when one stop made them at most, or all of them were
  sealed, or one of them is of a crash. -/
  once : ∀ i, s.attempts.count i ≤ 1 ∨ (∀ id, (id, i) ∈ s.written → id.isSealed = true) ∨
      (.crash i, i) ∈ s.written →
    ∀ id id', (id, i) ∈ s.written → (id', i) ∈ s.written → id = id'

/-- What the daemon forgets does no harm: a crash is accounted for when this daemon knows of a receipt or
there is none, and then its receipt can be persisted; a forced stop makes no receipt of an engine whose
crash is accounted for; and the daemon does not restart while an engine is alive that is not in the state
file, or has exited without a receipt. -/
def Kept : AccountingEvent Inst → Prop
  | .account n persists => ∀ e, s.serve.engines[n]? = some e →
      e.identity ∈ s.durable ∨ (persists = true ∧ ¬ s.HasReceipt e.identity)
  | .prepare _ _ _ => ∀ n goal e, s.serve.holder = some (.prepare n goal) →
      s.serve.engines[n]? = some e → s.force = true → (.crash e.identity, e.identity) ∉ s.written
  | .daemonRestart _ => ∀ (n : Nat) (e : Engine ServeConfig), s.serve.engines[n]? = some e →
      (e.exited = false → ∃ config, s.stateFile = some (config, e.identity)) ∧
      (e.exited = true → e.monitor.held = true → s.HasReceipt e.identity)
  | _ => True

/-! ## The invariant -/

def Owns (i : Identity) : ReceiptId Inst → Prop
  | .sealed x => (i, some x) ∈ launched
  | .snapshot (.inl x) _ _ _ => (i, some x) ∈ launched
  | .snapshot (.inr j) _ _ _ => j = i
  | .degraded j => j = i
  | .crash j => j = i

structure ReceiptInv (attempts : List Identity)
    (written : List (ReceiptId Inst × Identity)) : Prop where
  owns : ∀ id i, (id, i) ∈ written → (∃ x, (i, x) ∈ launched) ∧ Owns launched i id
  attempted : ∀ i ∈ attempts, ∃ id, (id, i) ∈ written
  unattempted : ∀ id i, i ∉ attempts → (id, i) ∈ written → id = .crash i
  single : ∀ i, attempts.count i ≤ 1 → ∀ id id', (id, i) ∈ written → (id', i) ∈ written → id = id'
  crash : ∀ i, (.crash i, i) ∈ written → ∀ id, (id, i) ∈ written → id = .crash i

structure LaunchInv : Prop where
  instance_ : ∀ i x y, (i, x) ∈ launched → (i, y) ∈ launched → x = y
  engine : ∀ i j x, (i, some x) ∈ launched → (j, some x) ∈ launched → i = j

/-- What holds in every state that is reached while nothing harmful is forgotten. -/
structure Inv : Prop where
  serve : s.serve.Inv
  sampled : ∀ (n : Nat) (e : Engine ServeConfig) (wasStopping isCurrent : Bool),
    s.serve.engines[n]? = some e → e.monitor = .sampled wasStopping isCurrent → isCurrent = true
  known : ∀ (n : Nat) (e : Engine ServeConfig), s.serve.engines[n]? = some e →
    ∃ x, (e.identity, x) ∈ s.launched
  distinct : ∀ (n m : Nat) (a b : Engine ServeConfig), s.serve.engines[n]? = some a →
    s.serve.engines[m]? = some b → a.identity = b.identity → n = m
  launched : LaunchInv s.launched
  receipts : ReceiptInv s.launched s.attempts s.written
  durable : ∀ i ∈ s.durable, s.HasReceipt i
  accounted : ∀ n ∈ s.accounted, ∃ e, s.serve.engines[n]? = some e ∧ s.HasReceipt e.identity
  signals : ∀ n, s.serve.Signals n → ∃ e, s.serve.engines[n]? = some e ∧ s.HasReceipt e.identity
  signalled : ∀ i ∈ s.signalled, s.HasReceipt i
  ended : ∀ i ∈ s.ended, s.HasReceipt i
  crashed : ∀ (n : Nat) (e : Engine ServeConfig), s.serve.engines[n]? = some e →
    (.crash e.identity, e.identity) ∈ s.written → e.exited = true

variable {s : AccountedServe Inst} {launched : List (Identity × Option Inst)} {attempts : List Identity}
  {written : List (ReceiptId Inst × Identity)}

theorem ReceiptInv.own
     (inv : ReceiptInv launched attempts written)
    (fresh : LaunchInv launched) {id : ReceiptId Inst} {i j : Identity} (one : (id, i) ∈ written)
    (two : (id, j) ∈ written) : i = j := by
  have first := (inv.owns id i one).2
  have second := (inv.owns id j two).2
  match id with
  | .sealed x => exact fresh.engine i j x first second
  | .snapshot (.inl x) _ _ _ => exact fresh.engine i j x first second
  | .snapshot (.inr k) _ _ _ => exact first.symm.trans second
  | .degraded k => exact first.symm.trans second
  | .crash k => exact first.symm.trans second

theorem Inv.toAccounted (inv : Inv s) : Accounted s where
  signalled := inv.signalled
  ended := inv.ended
  own _ _ _ one two := inv.receipts.own inv.launched one two
  once i why id id' one two := by
    rcases why with few | sealed | crash
    · exact inv.receipts.single i few id id' one two
    · have first := (inv.receipts.owns id i one).2
      have second := (inv.receipts.owns id' i two).2
      have sealed₁ := sealed id one
      have sealed₂ := sealed id' two
      cases id <;> cases id' <;> simp_all [ReceiptId.isSealed, Owns]
      exact Option.some.inj (inv.launched.instance_ _ _ _ first second)
    · exact (inv.receipts.crash i crash id one).trans (inv.receipts.crash i crash id' two).symm

theorem inv_boot (autoRestart : Bool) : Inv (boot autoRestart : AccountedServe Inst) where
  serve := ServeManager.inv_boot autoRestart none
  sampled n e _ _ here := by simp [boot, ServeManager.boot] at here
  known n e here := by simp [boot, ServeManager.boot] at here
  distinct n m a b here := by simp [boot, ServeManager.boot] at here
  launched := ⟨fun _ _ _ mem => by simp [boot] at mem, fun _ _ _ mem => by simp [boot] at mem⟩
  receipts := ⟨fun _ _ mem => by simp [boot] at mem, fun _ mem => by simp [boot] at mem,
    fun _ _ _ mem => by simp [boot] at mem, fun _ _ _ _ mem => by simp [boot] at mem,
    fun _ mem => by simp [boot] at mem⟩
  durable i mem := by simp [boot] at mem
  accounted n mem := by simp [boot] at mem
  signals n signals := by
    obtain ⟨goal, holder⟩ := signals
    simp [boot, ServeManager.boot] at holder
  signalled i mem := by simp [boot] at mem
  ended i mem := by simp [boot] at mem
  crashed n e here := by simp [boot, ServeManager.boot] at here

/-! ## The steps -/

theorem Inv.goOn {s s' : AccountedServe Inst} (inv : Inv s) {prepared : Prop}
    (forth : s.serve.Forth s'.serve prepared) (launched : s'.launched = s.launched)
    (receipts : ReceiptInv s.launched s'.attempts s'.written)
    (grows : ∀ id i, (id, i) ∈ s.written → (id, i) ∈ s'.written)
    (durable : ∀ i ∈ s'.durable, s'.HasReceipt i)
    (accounted : ∀ n ∈ s'.accounted, ∃ e, s.serve.engines[n]? = some e ∧ s'.HasReceipt e.identity)
    (sealed : prepared → ∀ n goal, s.serve.holder = some (.prepare n goal) →
      ∃ e, s.serve.engines[n]? = some e ∧ s'.HasReceipt e.identity)
    (signalled : ∀ i ∈ s'.signalled, s'.HasReceipt i) (ended : ∀ i ∈ s'.ended, s'.HasReceipt i)
    (crashed : ∀ (n : Nat) (e : Engine ServeConfig), s.serve.engines[n]? = some e →
      (.crash e.identity, e.identity) ∈ s'.written → e.exited = true) : Inv s' := by
  have carry : ∀ (n : Nat) (e : Engine ServeConfig), s.serve.engines[n]? = some e → s'.HasReceipt e.identity →
      ∃ e', s'.serve.engines[n]? = some e' ∧ s'.HasReceipt e'.identity := by
    intro n e here has
    obtain ⟨e', there, same⟩ := forth.after n e here
    exact ⟨e', there, same ▸ has⟩
  refine ⟨forth.inv, fun n e' wasStopping isCurrent here at_ => ?_, fun n e' here => ?_,
    fun n m a b here there same => ?_, launched ▸ inv.launched, launched ▸ receipts, durable,
    fun n mem => ?_, fun n signals => ?_, signalled, ended, fun n e' here crash => ?_⟩
  · obtain ⟨e, there, -, -, sampled⟩ := forth.before n e' here
    exact (sampled wasStopping isCurrent at_).elim (inv.sampled n e wasStopping isCurrent there) id
  · obtain ⟨e, there, same, -⟩ := forth.before n e' here
    rw [launched, same]
    exact inv.known n e there
  · obtain ⟨a', here', sameA, -⟩ := forth.before n a here
    obtain ⟨b', there', sameB, -⟩ := forth.before m b there
    exact inv.distinct n m a' b' here' there' (sameA.symm.trans (same.trans sameB))
  · obtain ⟨e, here, has⟩ := accounted n mem
    exact carry n e here has
  · rcases forth.signals n signals with before | ⟨makes, goal, holder⟩
    · obtain ⟨e, here, id, mem⟩ := inv.signals n before
      exact carry n e here ⟨id, grows id _ mem⟩
    · obtain ⟨e, here, has⟩ := sealed makes n goal holder
      exact carry n e here has
  · obtain ⟨e, there, same, exited, -⟩ := forth.before n e' here
    exact exited (crashed n e there (same ▸ crash))

variable {serve : ServeManager ServeConfig} {i : Identity} {r : Receipt Inst}

theorem ReceiptInv.crashed
     (inv : ReceiptInv launched attempts written)
    (known : ∃ x, (i, x) ∈ launched) (none_ : ¬ ∃ id, (id, i) ∈ written) :
    ReceiptInv launched attempts (written ++ [(.crash i, i)]) where
  owns id j mem := by
    rcases mem_concat mem with mem | last
    · exact inv.owns id j mem
    · cases last
      exact ⟨known, rfl⟩
  attempted j mem := by
    obtain ⟨id, there⟩ := inv.attempted j mem
    exact ⟨id, List.mem_append_left _ there⟩
  unattempted id j unmade mem := by
    rcases mem_concat mem with mem | last
    · exact inv.unattempted id j unmade mem
    · cases last
      rfl
  single j few id id' one two := by
    by_cases same : j = i
    · subst same
      have only : ∀ id, (id, j) ∈ written ++ [(ReceiptId.crash j, j)] → id = .crash j := by
        intro id mem
        rcases mem_concat mem with mem | last
        · exact absurd ⟨id, mem⟩ none_
        · exact (Prod.mk.inj last).1
      exact (only id one).trans (only id' two).symm
    · have old : ∀ id, (id, j) ∈ written ++ [(ReceiptId.crash i, i)] → (id, j) ∈ written := by
        intro id mem
        rcases mem_concat mem with mem | last
        · exact mem
        · exact absurd (Prod.mk.inj last).2 same
      exact inv.single j few id id' (old id one) (old id' two)
  crash j crash id mem := by
    by_cases same : j = i
    · subst same
      rcases mem_concat mem with mem | last
      · exact absurd ⟨id, mem⟩ none_
      · exact (Prod.mk.inj last).1
    · have old : ∀ id, (id, j) ∈ written ++ [(ReceiptId.crash i, i)] → (id, j) ∈ written := by
        intro id mem
        rcases mem_concat mem with mem | last
        · exact mem
        · exact absurd (Prod.mk.inj last).2 same
      exact inv.crash j (old _ crash) id (old id mem)

theorem ReceiptInv.prepared
     (inv : ReceiptInv launched attempts written)
    {made : ReceiptId Inst} (known : ∃ x, (i, x) ∈ launched)
    (owns : Owns launched i made) (notCrash : made ≠ .crash i) (none_ : (.crash i, i) ∉ written) :
    ReceiptInv launched (attempts ++ [i]) (written ++ [(made, i)]) where
  owns id j mem := by
    rcases mem_concat mem with mem | last
    · exact inv.owns id j mem
    · cases last
      exact ⟨known, owns⟩
  attempted j mem := by
    rcases mem_concat mem with mem | rfl
    · obtain ⟨id, there⟩ := inv.attempted j mem
      exact ⟨id, List.mem_append_left _ there⟩
    · exact ⟨made, by simp⟩
  unattempted id j unmade mem := by
    have unmade' : j ∉ attempts := fun there => unmade (List.mem_append_left _ there)
    rcases mem_concat mem with mem | last
    · exact inv.unattempted id j unmade' mem
    · cases last
      exact absurd (by simp) unmade
  single j few id id' one two := by
    by_cases same : j = i
    · subst same
      have unmade : j ∉ attempts := by
        rw [List.count_append, List.count_singleton_self] at few
        exact List.count_eq_zero.mp (by omega)
      have only : ∀ id, (id, j) ∈ written ++ [(made, j)] → id = made := by
        intro id mem
        rcases mem_concat mem with mem | last
        · obtain rfl := inv.unattempted id j unmade mem
          exact absurd mem none_
        · exact (Prod.mk.inj last).1
      exact (only id one).trans (only id' two).symm
    · have old : ∀ id, (id, j) ∈ written ++ [(made, i)] → (id, j) ∈ written := by
        intro id mem
        rcases mem_concat mem with mem | last
        · exact mem
        · exact absurd (Prod.mk.inj last).2 same
      have fewer : attempts.count j ≤ (attempts ++ [i]).count j := by
        rw [List.count_append]
        exact Nat.le_add_right _ _
      exact inv.single j (Nat.le_trans fewer few) id id' (old id one) (old id' two)
  crash j crash id mem := by
    have old : (ReceiptId.crash j, j) ∈ written := by
      rcases mem_concat crash with crash | last
      · exact crash
      · obtain ⟨same, rfl⟩ := Prod.mk.inj last
        exact absurd same.symm notCrash
    have other : j ≠ i := by
      rintro rfl
      exact none_ old
    rcases mem_concat mem with mem | last
    · exact inv.crash j old id mem
    · exact absurd (Prod.mk.inj last).2 other

theorem owns_of_prepareReceipt
    {instanceId : Option Inst} (known : ∀ x, instanceId = some x → (i, some x) ∈ launched)
    {model : Option String} {reply : PrepareReply} {stats : Option Totals} {force : Bool}
    (made : prepareReceipt i instanceId model reply stats force = some r) :
    Owns launched i r.receiptId ∧ r.receiptId ≠ .crash i := by
  have effort : ∀ reason force, bestEffortReceipt i instanceId model stats reason force = some r →
      Owns launched i r.receiptId ∧ r.receiptId ≠ .crash i := by
    intro reason force made
    unfold bestEffortReceipt at made
    match stats with
    | some t =>
      cases made
      match instanceId with
      | some x => exact ⟨known x rfl, by simp⟩
      | none => exact ⟨rfl, by simp⟩
    | none =>
      obtain ⟨-, rfl⟩ := of_guard made
      exact ⟨rfl, by simp [degradedReceipt]⟩
  unfold prepareReceipt at made
  match reply with
  | .unavailable => exact effort _ _ made
  | .failed =>
    obtain ⟨-, made⟩ := Option.ite_none_right_eq_some.mp made
    exact effort _ _ made
  | .document totals drainComplete =>
    simp only at made
    match sealing : sealedReceipt instanceId totals drainComplete with
    | some sealed =>
      rw [sealing] at made
      cases made
      match totals, instanceId, drainComplete with
      | some t, some x, true =>
        cases sealing
        exact ⟨known x rfl, by simp⟩
      | some t, some x, false => simp [sealedReceipt] at sealing
      | some t, none, _ => simp [sealedReceipt] at sealing
      | none, _, _ => simp [sealedReceipt] at sealing
    | none =>
      rw [sealing] at made
      obtain ⟨-, made⟩ := Option.ite_none_right_eq_some.mp made
      exact effort _ _ made

theorem mem_of_instanceOf {x : Inst}
    (found : s.instanceOf i = some x) : (i, some x) ∈ s.launched := by
  obtain ⟨known, here, same⟩ := Option.bind_eq_some_iff.mp found
  have first : known.1 = i := by simpa using List.find?_some here
  have mem := List.mem_of_find?_eq_some here
  obtain ⟨j, y⟩ := known
  obtain rfl : j = i := first
  obtain rfl : y = some x := same
  exact mem

theorem Inv.plainStep (inv : Inv s) {ev : ServeEvent ServeConfig}
    (plain : s.plain ev = true) (taken : s.serve.step ev = some serve)
    (force : Bool) : Inv { s.note ev with serve := serve, force := force } := by
  have forth : s.serve.Forth serve False := by
    have goes := ServeManager.forth_of_step inv.serve taken fun pid starttime same => by
      simp [same, AccountedServe.plain] at plain
    refine ⟨goes.inv, goes.before, goes.after, fun n signals => .inl ?_⟩
    refine (goes.signals n signals).resolve_right ?_
    rintro ⟨rfl, -⟩
    simp [AccountedServe.plain] at plain
  have receipted : ∀ n i, (∃ e, s.serve.engines[n]? = some e ∧ s.HasReceipt e.identity) →
      i ∈ (s.identity? n).toList → s.HasReceipt i := by
    rintro n i ⟨e, here, has⟩ mem
    obtain rfl : i = e.identity := by simpa [identity?, here] using mem
    exact has
  obtain ⟨ended, signalled, stateFile, noted, fine⟩ : ∃ ended signalled stateFile,
      s.note ev = { s with ended := ended, signalled := signalled, stateFile := stateFile } ∧
        (∀ i ∈ ended, s.HasReceipt i) ∧ ∀ i ∈ signalled, s.HasReceipt i := by
    unfold AccountedServe.note
    split
    · rename_i n goal there
      refine ⟨_, _, _, rfl, inv.ended, fun i mem => ?_⟩
      rcases List.mem_append.mp mem with mem | mem
      · exact inv.signalled i mem
      · exact receipted n i (inv.signals n ⟨goal, .inl there⟩) mem
    · rename_i n goal there
      refine ⟨_, _, _, rfl, inv.ended, fun i mem => ?_⟩
      rcases List.mem_append.mp mem with mem | mem
      · exact inv.signalled i mem
      · exact receipted n i (inv.signals n ⟨goal, .inr (.inl there)⟩) mem
    · exact ⟨_, _, _, rfl, inv.ended, inv.signalled⟩
    · rename_i n
      refine ⟨_, _, _, rfl, fun i mem => ?_, inv.signalled⟩
      rcases List.mem_append.mp mem with mem | mem
      · exact inv.ended i mem
      · simp only [AccountedServe.plain, decide_eq_true_eq] at plain
        rcases plain with seen | stray
        · exact receipted n i (inv.accounted n seen) mem
        · -- A monitor that has found another child.
          match here : s.serve.engines[n]? with
          | none => simp [here] at stray
          | some e =>
            simp only [here, Option.any_some] at stray
            split at stray
            · rename_i wasStopping isCurrent at_
              simp [inv.sampled n e wasStopping isCurrent here at_] at stray
            · simp at stray
    · split_ifs
      · exact ⟨_, _, _, rfl, inv.ended, inv.signalled⟩
      · exact ⟨_, _, _, rfl, inv.ended, inv.signalled⟩
    · exact ⟨_, _, _, rfl, inv.ended, inv.signalled⟩
  rw [noted]
  exact inv.goOn forth rfl inv.receipts (fun _ _ mem => mem) inv.durable inv.accounted
    (fun makes => makes.elim) fine.2 fine.1 inv.crashed

theorem Inv.prepare [DecidableEq Inst] {s : AccountedServe Inst} (inv : Inv s) {n : Nat}
    {goal : StopGoal ServeConfig} {e : Engine ServeConfig}
    (holder : s.serve.holder = some (.prepare n goal)) (here : s.serve.engines[n]? = some e)
    (owns : Owns s.launched e.identity r.receiptId)
    (notCrash : r.receiptId ≠ .crash e.identity)
    (none_ : (.crash e.identity, e.identity) ∉ s.written)
    (taken : s.serve.step .prepared = some serve) :
    Inv { s.persist r e.identity with serve := serve, attempts := s.attempts ++ [e.identity] } := by
  have forth := ServeManager.forth_of_step inv.serve taken (by simp)
  have grows : ∀ id i, (id, i) ∈ s.written → (id, i) ∈ s.written ++ [(r.receiptId, e.identity)] :=
    fun _ _ mem => List.mem_append_left _ mem
  have has : ∃ id, (id, e.identity) ∈ s.written ++ [(r.receiptId, e.identity)] :=
    ⟨r.receiptId, by simp⟩
  have still : ∀ i, s.HasReceipt i →
      ∃ id, (id, i) ∈ s.written ++ [(r.receiptId, e.identity)] :=
    fun i ⟨id, mem⟩ => ⟨id, grows id i mem⟩
  refine inv.goOn forth rfl (inv.receipts.prepared (inv.known n e here) owns notCrash none_) grows
    (fun i mem => ?_) (fun m mem => ?_) (fun _ m goal' holder' => ?_)
    (fun i mem => still i (inv.signalled i mem)) (fun i mem => still i (inv.ended i mem))
    fun m c there crash => ?_
  · rcases mem_concat mem with mem | rfl
    · exact still i (inv.durable i mem)
    · exact has
  · obtain ⟨c, there, got⟩ := inv.accounted m mem
    exact ⟨c, there, still _ got⟩
  · rw [holder] at holder'
    obtain ⟨rfl, -⟩ : n = m ∧ goal = goal' := by simpa using holder'
    exact ⟨e, here, has⟩
  · rcases mem_concat crash with crash | last
    · exact inv.crashed m c there crash
    · obtain ⟨same, alike⟩ := Prod.mk.inj last
      exact absurd (alike ▸ same).symm notCrash

theorem Inv.account [DecidableEq Inst] {s : AccountedServe Inst} (inv : Inv s) {n : Nat}
    {e : Engine ServeConfig} (here : s.serve.engines[n]? = some e) (exited : e.exited = true)
    (none_ : ¬ s.HasReceipt e.identity) (crash : r.receiptId = .crash e.identity) :
    Inv { s.persist r e.identity with accounted := n :: s.accounted } := by
  have grows : ∀ id i, (id, i) ∈ s.written → (id, i) ∈ s.written ++ [(r.receiptId, e.identity)] :=
    fun _ _ mem => List.mem_append_left _ mem
  have has : ∃ id, (id, e.identity) ∈ s.written ++ [(r.receiptId, e.identity)] :=
    ⟨r.receiptId, by simp⟩
  have still : ∀ i, s.HasReceipt i →
      ∃ id, (id, i) ∈ s.written ++ [(r.receiptId, e.identity)] :=
    fun i ⟨id, mem⟩ => ⟨id, grows id i mem⟩
  have receipts : ReceiptInv s.launched s.attempts (s.written ++ [(r.receiptId, e.identity)]) := by
    rw [crash]
    exact inv.receipts.crashed (inv.known n e here) none_
  refine inv.goOn (.refl inv.serve) rfl receipts grows (fun i mem => ?_) (fun m mem => ?_)
    (fun makes => makes.elim) (fun i mem => still i (inv.signalled i mem))
    (fun i mem => still i (inv.ended i mem)) fun m c there crash' => ?_
  · rcases mem_concat mem with mem | rfl
    · exact still i (inv.durable i mem)
    · exact has
  · rcases List.mem_cons.mp mem with rfl | mem
    · exact ⟨e, here, has⟩
    · obtain ⟨c, there, got⟩ := inv.accounted m mem
      exact ⟨c, there, still _ got⟩
  · rcases List.mem_append.mp crash' with crash' | last
    · exact inv.crashed m c there crash'
    · have alike := (Prod.mk.inj (List.mem_singleton.mp last)).2
      obtain rfl := inv.distinct m n c e there here alike
      cases here.symm.trans there
      exact exited

theorem Inv.spawn (inv : Inv s) {pid : Int} {starttime : Option Int}
    {instanceId : Option Inst} (fresh : ∀ known ∈ s.launched, known.1 ≠ (pid, starttime) ∧
      (known.2 = none ∨ known.2 ≠ instanceId))
    (taken : s.serve.step (.spawn pid starttime) = some serve) :
    Inv { s with
      serve := serve, launched := s.launched ++ [((pid, starttime), instanceId)] } := by
  have more : ∀ i x, (i, x) ∈ s.launched → (i, x) ∈ s.launched ++ [((pid, starttime), instanceId)] :=
    fun _ _ mem => List.mem_append_left _ mem
  have apart : ∀ x, ((pid, starttime), x) ∉ s.launched := fun x mem => (fresh _ mem).1 rfl
  have cases_ : ∀ i x, (i, x) ∈ s.launched ++ [((pid, starttime), instanceId)] →
      (i, x) ∈ s.launched ∨ (i = (pid, starttime) ∧ x = instanceId) := by
    intro i x mem
    rcases mem_concat mem with mem | last
    · exact .inl mem
    · exact .inr (Prod.mk.inj last)
  have before : ∀ (n : Nat) (e' : Engine ServeConfig), serve.engines[n]? = some e' →
      (∃ e, s.serve.engines[n]? = some e ∧ ServeManager.Goes s.serve.child n e e') ∨
        (n = s.serve.engines.length ∧ e'.monitor = .off ∧ e'.identity = (pid, starttime)) := by
    intro n e' here
    rcases ServeManager.engine_before taken here with old | ⟨last, off, p, st, same, id⟩
    · exact .inl old
    · obtain ⟨rfl, rfl⟩ : pid = p ∧ starttime = st := by simpa using same
      exact .inr ⟨last, off, id⟩
  have ownsMore : ∀ i id, Owns s.launched i id →
      Owns (s.launched ++ [((pid, starttime), instanceId)]) i id := by
    intro i id owns
    match id with
    | .sealed x => exact more i _ owns
    | .snapshot (.inl x) _ _ _ => exact more i _ owns
    | .snapshot (.inr k) _ _ _ => exact owns
    | .degraded k => exact owns
    | .crash k => exact owns
  have carry : ∀ (n : Nat), (∃ e, s.serve.engines[n]? = some e ∧ s.HasReceipt e.identity) →
      ∃ e, serve.engines[n]? = some e ∧ s.HasReceipt e.identity := by
    rintro n ⟨e, here, has⟩
    obtain ⟨e', there, same⟩ := ServeManager.engine_after taken here
    exact ⟨e', there, same ▸ has⟩
  refine ⟨inv.serve.step taken, fun n e' wasStopping isCurrent here at_ => ?_, fun n e' here => ?_,
    fun n m a b here there same => ?_, ⟨fun i x y one two => ?_, fun i j x one two => ?_⟩,
    ⟨fun id i mem => ?_, inv.receipts.attempted, inv.receipts.unattempted, inv.receipts.single,
      inv.receipts.crash⟩, inv.durable, fun n mem => carry n (inv.accounted n mem),
    fun n signals => ?_, inv.signalled, inv.ended, fun n e' here crash => ?_⟩
  · rcases before n e' here with ⟨e, there, goes⟩ | ⟨-, off, -⟩
    · rcases goes.current inv.serve there at_ with old | true_
      · exact inv.sampled n e wasStopping isCurrent there old
      · exact true_
    · simp [off] at at_
  · rcases before n e' here with ⟨e, there, goes⟩ | ⟨-, -, id⟩
    · obtain ⟨x, mem⟩ := inv.known n e there
      exact ⟨x, goes.identity ▸ more _ _ mem⟩
    · exact ⟨instanceId, by simp [id]⟩
  · rcases before n a here with ⟨e, thereA, goesA⟩ | ⟨lastA, -, idA⟩
    · rcases before m b there with ⟨e', thereB, goesB⟩ | ⟨-, -, idB⟩
      · exact inv.distinct n m e e' thereA thereB
          (goesA.identity.symm.trans (same.trans goesB.identity))
      · obtain ⟨x, mem⟩ := inv.known n e thereA
        rw [← goesA.identity, same, idB] at mem
        exact absurd mem (apart x)
    · rcases before m b there with ⟨e', thereB, goesB⟩ | ⟨lastB, -, -⟩
      · obtain ⟨x, mem⟩ := inv.known m e' thereB
        rw [← goesB.identity, ← same, idA] at mem
        exact absurd mem (apart x)
      · exact lastA.trans lastB.symm
  · rcases cases_ i x one with first | ⟨new, isX⟩
    · rcases cases_ i y two with second | ⟨new, -⟩
      · exact inv.launched.instance_ i x y first second
      · exact absurd (new ▸ first) (apart x)
    · rcases cases_ i y two with second | ⟨-, isY⟩
      · exact absurd (new ▸ second) (apart y)
      · exact isX.trans isY.symm
  · have other : ∀ k, (k, some x) ∈ s.launched → some x ≠ instanceId :=
      fun k mem => (fresh _ mem).2.resolve_left (by simp)
    rcases cases_ i _ one with first | ⟨newI, isX⟩
    · rcases cases_ j _ two with second | ⟨-, isX⟩
      · exact inv.launched.engine i j x first second
      · exact absurd isX (other i first)
    · rcases cases_ j _ two with second | ⟨newJ, -⟩
      · exact absurd isX (other j second)
      · exact newI.trans newJ.symm
  · obtain ⟨⟨x, known⟩, owns⟩ := inv.receipts.owns id i mem
    exact ⟨⟨x, more _ _ known⟩, ownsMore i id owns⟩
  · refine carry n (inv.signals n ?_)
    exact (ServeManager.signals_of_step taken signals).resolve_right (by simp)
  · rcases before n e' here with ⟨e, there, goes⟩ | ⟨-, -, id⟩
    · rw [goes.identity] at crash
      exact goes.exited (inv.crashed n e there crash)
    · obtain ⟨x, mem⟩ := (inv.receipts.owns _ _ crash).1
      rw [id] at mem
      exact absurd mem (apart x)

theorem alive_of_adoptable {found : ServeConfig × Int × Option Int}
    (adoptable : s.adoptable = some found) :
    ∃ (n : Nat) (e : Engine ServeConfig), s.serve.engines[n]? = some e ∧
      e.identity = (found.2.1, found.2.2) ∧ e.exited = false := by
  obtain ⟨file, -, adopts⟩ := Option.bind_eq_some_iff.mp adoptable
  obtain ⟨alive, rfl⟩ := of_guard adopts
  obtain ⟨e, mem, is_⟩ := List.any_eq_true.mp alive
  obtain ⟨n, here⟩ := List.mem_iff_getElem?.mp mem
  have is_ : e.identity = file.2 ∧ e.exited = false := by simpa using is_
  exact ⟨n, e, here, is_⟩

theorem Inv.restart (inv : Inv s) (autoRestart : Bool)
    (kept : ∀ (n : Nat) (e : Engine ServeConfig), s.serve.engines[n]? = some e →
      e.exited = true → e.monitor.held = true → s.HasReceipt e.identity) :
    Inv (s.restart autoRestart) := by
  have only : ∀ (n : Nat) (e : Engine ServeConfig),
      (s.restart autoRestart).serve.engines[n]? = some e →
      n = 0 ∧ e.monitor = .waiting ∧ ∃ (m : Nat) (old : Engine ServeConfig),
        s.serve.engines[m]? = some old ∧ old.identity = e.identity ∧ old.exited = false := by
    intro n e here
    have here : ((ServeManager.boot autoRestart s.adoptable).engines)[n]? = some e := here
    match adopted : s.adoptable, n with
    | none, n => simp [adopted, ServeManager.boot] at here
    | some found, 0 =>
      rw [adopted] at here
      cases here
      obtain ⟨m, old, there, same, alive⟩ := alive_of_adoptable adopted
      exact ⟨rfl, rfl, m, old, there, same, alive⟩
    | some found, n + 1 => simp [adopted, ServeManager.boot] at here
  refine ⟨ServeManager.inv_boot autoRestart s.adoptable,
    fun n e wasStopping isCurrent here at_ => ?_, fun n e here => ?_,
    fun n m a b here there _ => ?_, inv.launched, inv.receipts, fun i mem => ?_, fun n mem => ?_,
    fun n signals => ?_, inv.signalled, fun i mem => ?_, fun n e here crash => ?_⟩
  · simp [(only n e here).2.1] at at_
  · obtain ⟨-, -, m, old, there, same, -⟩ := only n e here
    exact same ▸ inv.known m old there
  · exact (only n a here).1.trans (only m b there).1.symm
  · simp [AccountedServe.restart] at mem
  · simp [AccountedServe.restart] at mem
  · obtain ⟨goal, holder⟩ := signals
    simp [AccountedServe.restart, ServeManager.boot] at holder
  · rcases List.mem_append.mp mem with mem | lost
    · exact inv.ended i mem
    · obtain ⟨e, found, rfl⟩ := List.mem_map.mp lost
      obtain ⟨there, gone⟩ := List.mem_filter.mp found
      obtain ⟨n, here⟩ := List.mem_iff_getElem?.mp there
      have gone : e.exited = true ∧ e.monitor.held = true := by simpa using gone
      exact kept n e here gone.1 gone.2
  · obtain ⟨-, -, m, old, there, same, alive⟩ := only n e here
    have crashed := inv.crashed m old there (same ▸ crash)
    exact absurd (crashed.symm.trans alive) (by simp)

theorem Inv.step [DecidableEq Inst] {s s' : AccountedServe Inst} (inv : Inv s)
    {ev : AccountingEvent Inst} (kept : s.Kept ev) (taken : s.step ev = some s') : Inv s' := by
  have fails : ∀ {ev : ServeEvent ServeConfig} {serve : ServeManager ServeConfig},
      s.serve.step ev = some serve → (∀ pid starttime, ev ≠ .spawn pid starttime) →
      ev ≠ .prepared → Inv { s with serve := serve } := by
    intro ev serve taken other notPrepared
    exact inv.goOn (ServeManager.forth_of_step inv.serve taken other) rfl inv.receipts
      (fun _ _ mem => mem) inv.durable inv.accounted (fun makes => absurd makes notPrepared)
      inv.signalled inv.ended inv.crashed
  cases ev with
  | serve force ev =>
    obtain ⟨plain, taken⟩ := Option.ite_none_right_eq_some.mp taken
    obtain ⟨serve, stepped, same⟩ := Option.bind_eq_some_iff.mp taken
    cases same
    exact inv.plainStep plain stepped _
  | spawn pid starttime instanceId =>
    obtain ⟨fresh, taken⟩ := Option.ite_none_right_eq_some.mp taken
    obtain ⟨serve, stepped, same⟩ := Option.bind_eq_some_iff.mp taken
    cases same
    refine inv.spawn (fun known mem => ?_) stepped
    simpa using List.all_eq_true.mp fresh known mem
  | prepare reply stats persists =>
    simp only [AccountedServe.step] at taken
    split at taken
    · rename_i n goal holder
      obtain ⟨e, here, taken⟩ := Option.bind_eq_some_iff.mp taken
      have kept := kept n goal e holder here
      set answer : PrepareReply × Option Totals :=
        if e.exited = true then (.failed, none) else (reply, stats) with answered
      have noCrash : ∀ r, prepareReceipt e.identity (s.instanceOf e.identity)
          (s.serve.config.map (·.model)) answer.1 answer.2 s.force = some r →
          (.crash e.identity, e.identity) ∉ s.written := by
        intro r made crash
        have exited := inv.crashed n e here crash
        by_cases force : s.force = true
        · exact kept force crash
        · simp [answered, exited, prepareReceipt, force] at made
      split at taken
      · rename_i r made
        obtain ⟨owns, notCrash⟩ :=
          owns_of_prepareReceipt (fun x found => mem_of_instanceOf found) made
        split_ifs at taken
        · obtain ⟨serve, stepped, same⟩ := Option.bind_eq_some_iff.mp taken
          cases same
          exact inv.prepare holder here owns notCrash (noCrash r made) stepped
        · obtain ⟨serve, stepped, same⟩ := Option.bind_eq_some_iff.mp taken
          cases same
          exact fails stepped (by simp) (by simp)
      · obtain ⟨serve, stepped, same⟩ := Option.bind_eq_some_iff.mp taken
        cases same
        exact fails stepped (by simp) (by simp)
    · simp at taken
  | account n persists =>
    obtain ⟨e, here, taken⟩ := Option.bind_eq_some_iff.mp taken
    have kept := kept e here
    split at taken
    · rename_i wasStopping sampled
      have exited := (inv.serve.engines n e here).exited (by simp [sampled]) (by simp [sampled])
      by_cases seen : n ∈ s.accounted
      · simp [seen] at taken
      · rw [if_neg seen] at taken
        by_cases knows : e.identity ∈ s.durable
        · rw [if_pos knows] at taken
          cases taken
          refine inv.goOn (.refl inv.serve) rfl inv.receipts (fun _ _ mem => mem) inv.durable
            (fun m mem => ?_) (fun makes => makes.elim) inv.signalled inv.ended inv.crashed
          rcases List.mem_cons.mp mem with rfl | mem
          · exact ⟨e, here, inv.durable _ knows⟩
          · exact inv.accounted m mem
        · obtain ⟨persists, none_⟩ := kept.resolve_left knows
          rw [if_neg knows, if_pos persists] at taken
          cases taken
          exact inv.account here exited none_ rfl
    · simp at taken
  | observe seen =>
    simp only [AccountedServe.step] at taken
    have same : ∀ lastAccounting, Inv { s with lastAccounting := lastAccounting } := fun _ =>
      inv.goOn (.refl inv.serve) rfl inv.receipts (fun _ _ mem => mem) inv.durable inv.accounted
        (fun makes => makes.elim) inv.signalled inv.ended inv.crashed
    split at taken
    · cases taken
      exact same _
    · cases taken
      exact inv
  | ack id =>
    cases taken
    exact inv.goOn (.refl inv.serve) rfl inv.receipts (fun _ _ mem => mem) inv.durable inv.accounted
      (fun makes => makes.elim) inv.signalled inv.ended inv.crashed
  | daemonRestart autoRestart =>
    cases taken
    exact inv.restart autoRestart fun n e here => (kept n e here).2

/-- While nothing harmful is forgotten, every state that is reached keeps the accounts. -/
theorem accounted_of_kept [DecidableEq Inst] {s : AccountedServe Inst} (reached : Reachable Kept s) :
    Accounted s := by
  obtain ⟨autoRestart, reached⟩ := reached
  exact (reached.invariant Inv (inv_boot autoRestart)
    fun _ _ _ inv kept taken => inv.step kept taken).toAccounted

theorem kept_of_unforced (unforced : s.force = false)
    (reply : PrepareReply) (stats : Option Totals) (persists : Bool) :
    s.Kept (.prepare reply stats persists) := by
  intro _ _ _ _ _ force
  exact absurd (unforced.symm.trans force) (by simp)

theorem kept_of_durable {n : Nat}
    (durable : (s.serve.engines[n]?.all fun e => e.identity ∈ s.durable) = true) (persists : Bool) :
    s.Kept (.account n persists) := by
  intro e here
  left
  simpa [here] using durable

/-- An engine that seals its totals is stopped. -/
theorem accounted_of_kept_stop :
    ∃ s : AccountedServe Nat, Reachable Kept s ∧ s.ended = [(100, some 5)] ∧
      s.written = [(.sealed 3, (100, some 5))] ∧ Accounted s := by
  have begins : Reaches step Kept (boot false : AccountedServe Nat) (boot false) := .refl
  have stopping := begins.run
    [.serve false (.start ⟨"m", 1919, []⟩), .spawn 100 (some 5) (some 3), .serve false .record,
      .serve false .watch, .serve false .stop] (by simp [Kept]) rfl
  have prepared := stopping.step
    (kept_of_unforced rfl (.document (some ⟨"m", 123, 45, 9⟩) true) none true) rfl
  have signalled := prepared.run
    [.serve false .terminate, .serve false (.exit 0), .serve false (.sample 0)] (by simp [Kept]) rfl
  have accounted := signalled.step (kept_of_durable (n := 0) rfl true) rfl
  have stopped := accounted.run
    [.serve false (.clear 0), .serve false (.reap 0), .serve false .stopReturns, .ack (.sealed 3)]
    (by simp [Kept]) rfl
  exact ⟨_, ⟨false, stopped⟩, rfl, rfl, accounted_of_kept ⟨false, stopped⟩⟩

/-- An engine that cannot seal its totals is stopped, the signal fails, and it is stopped again. -/
theorem not_sealedOnce_of_retry : ∃ s : AccountedServe Nat, Reachable Always s ∧ ¬ SealedOnce s := by
  have begins : Reaches step Always (boot false : AccountedServe Nat) (boot false) := .refl
  have retried := begins.run
    [.serve false (.start ⟨"m", 1919, []⟩), .spawn 100 (some 5) none, .serve false .record,
      .serve false .watch, .serve false .stop, .prepare .unavailable (some ⟨"m", 10, 1, 5⟩) true,
      .serve false .signalFails, .serve false .stop,
      .prepare .unavailable (some ⟨"m", 20, 1, 5⟩) true, .serve false .terminate,
      .serve false (.exit 0), .serve false (.sample 0), .account 0 true, .serve false (.clear 0)]
    (fun _ _ _ => trivial) rfl
  refine ⟨_, ⟨false, retried⟩, fun once => ?_⟩
  have same := once.once (100, some 5) (.head _) (.snapshot (.inr (100, some 5)) "m" 10 1)
    (.snapshot (.inr (100, some 5)) "m" 20 1) (.head _) (.tail _ (.head _))
  simp at same

end AccountedServe

end FreeSwarm.Daemon
