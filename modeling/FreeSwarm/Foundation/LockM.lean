import Mathlib.Data.List.Basic

/-!
# Computations under a lock

A computation reads and changes a state, may raise an error, and may take a lock that is not
reentrant: a computation that takes the lock while it holds it is blocked for ever. `Keeps` is the
discipline: a computation that starts with the lock held or not, in a state that meets an invariant,
is not blocked, ends with the lock as it was, whether it returns or raises, and keeps the invariant.
-/

namespace FreeSwarm.Foundation

/-- How a computation ends. -/
inductive Outcome (ε α : Type) where
  | returned (value : α)
  | raised (error : ε)
  | blocked
  deriving DecidableEq

/-- The computation does not wait for ever. -/
def Outcome.Settled {ε α : Type} : Outcome ε α → Prop
  | .blocked => False
  | _ => True

def LockM (ε σ α : Type) := Bool × σ → Outcome ε α × (Bool × σ)

namespace LockM

section

variable {ε σ α β : Type}

/-- Nothing is done. -/
def ret (value : α) : LockM ε σ α := fun s => (.returned value, s)

/-- One computation after the other. -/
def andThen (m : LockM ε σ α) (f : α → LockM ε σ β) : LockM ε σ β := fun s =>
  match m s with
  | (.returned value, s) => f value s
  | (.raised error, s) => (.raised error, s)
  | (.blocked, s) => (.blocked, s)

instance instMonad : Monad (LockM ε σ) where
  pure := ret
  bind := andThen

def raise (error : ε) : LockM ε σ α := fun s => (.raised error, s)

def read (f : σ → α) : LockM ε σ α := fun s => (.returned (f s.2), s)

/-- The state is changed, or an error is raised. -/
def act (f : σ → Except ε (α × σ)) : LockM ε σ α := fun s =>
  match f s.2 with
  | .ok (value, next) => (.returned value, (s.1, next))
  | .error error => (.raised error, s)

/-- What is done with the lock held. The lock is released at the end, also behind an error. -/
def withLock (m : LockM ε σ α) : LockM ε σ α := fun s =>
  if s.1 then (.blocked, s)
  else
    match m (true, s.2) with
    | (.blocked, s) => (.blocked, s)
    | (outcome, s) => (outcome, (false, s.2))

variable {m : LockM ε σ α} {f : α → LockM ε σ β} {s s' : Bool × σ}

theorem bind_of_returned {value : α} (ends : m s = (.returned value, s')) :
    (m >>= f) s = f value s' := by
  show andThen m f s = _
  rw [andThen, ends]

theorem bind_of_raised {error : ε} (ends : m s = (.raised error, s')) :
    (m >>= f) s = (.raised error, s') := by
  show andThen m f s = _
  rw [andThen, ends]

theorem bind_of_blocked (ends : m s = (.blocked, s')) : (m >>= f) s = (.blocked, s') := by
  show andThen m f s = _
  rw [andThen, ends]

instance instLawfulMonad : LawfulMonad (LockM ε σ) := by
  refine LawfulMonad.mk' (LockM ε σ) ?_ ?_ ?_
  · intro α m
    funext s
    match ends : m s with
    | (.returned value, s') => exact bind_of_returned ends
    | (.raised error, s') => exact bind_of_raised ends
    | (.blocked, s') => exact bind_of_blocked ends
  · intro α β value f
    rfl
  · intro α β γ m f g
    funext s
    match ends : m s with
    | (.returned value, s') =>
      rw [bind_of_returned (f := fun a => f a >>= g) ends]
      show andThen (m >>= f) g s = andThen (f value) g s'
      rw [andThen, andThen, bind_of_returned ends]
    | (.raised error, s') =>
      rw [bind_of_raised (f := fun a => f a >>= g) ends]
      exact bind_of_raised (bind_of_raised ends)
    | (.blocked, s') =>
      rw [bind_of_blocked (f := fun a => f a >>= g) ends]
      exact bind_of_blocked (bind_of_blocked ends)

theorem read_andThen (g : σ → α) : (LockM.read g >>= f) s = f (g s.2) s := rfl

theorem withLock_returned {value : α} {state : σ} (ends : m (true, state) = (.returned value, s')) :
    withLock m (false, state) = (.returned value, (false, s'.2)) := by
  rw [LockM.withLock, if_neg (by simp), ends]

theorem withLock_raised {error : ε} {state : σ} (ends : m (true, state) = (.raised error, s')) :
    withLock m (false, state) = (.raised error, (false, s'.2)) := by
  rw [LockM.withLock, if_neg (by simp), ends]

theorem withLock_blocked {state : σ} (ends : m (true, state) = (.blocked, s')) :
    withLock m (false, state) = (.blocked, s') := by
  rw [LockM.withLock, if_neg (by simp), ends]

variable {g : σ → Except ε (α × σ)}

theorem withLock_act {state : σ} :
    withLock (act g) (false, state) =
      match g state with
      | .ok (value, next) => (.returned value, (false, next))
      | .error error => (.raised error, (false, state)) := by
  rw [LockM.withLock, if_neg (by simp), act]
  cases g state <;> rfl

theorem withLock_act_bind {state : σ} :
    (withLock (act g) >>= f) (false, state) =
      match g state with
      | .ok (value, next) => f value (false, next)
      | .error error => (.raised error, (false, state)) := by
  cases done : g state with
  | ok result => exact bind_of_returned (by rw [withLock_act, done])
  | error error => exact bind_of_raised (by rw [withLock_act, done])

/-- The computation waits for ever. -/
def Blocks (m : LockM ε σ α) (s : Bool × σ) : Prop := (m s).1 = .blocked

theorem Blocks.held (m : LockM ε σ α) (state : σ) : Blocks (withLock m) (true, state) := rfl

theorem Blocks.withLock {state : σ} (blocks : Blocks m (true, state)) :
    Blocks (withLock m) (false, state) := by
  match ends : m (true, state) with
  | (.blocked, s') => simp [Blocks, LockM.withLock, ends]
  | (.returned value, s') => simp [Blocks, ends] at blocks
  | (.raised error, s') => simp [Blocks, ends] at blocks

theorem Blocks.first (blocks : Blocks m s) : Blocks (m >>= f) s := by
  match ends : m s with
  | (.blocked, s') => rw [Blocks, bind_of_blocked ends]
  | (.returned value, s') => simp [Blocks, ends] at blocks
  | (.raised error, s') => simp [Blocks, ends] at blocks

theorem Blocks.behind {value : α} (ends : m s = (.returned value, s'))
    (blocks : Blocks (f value) s') : Blocks (m >>= f) s := by
  rw [Blocks, bind_of_returned ends]
  exact blocks

end

/-! ## The discipline -/

section

variable {ε σ α β : Type}

/-- The computation is not blocked, leaves the lock as it was and keeps the invariant. -/
def Keeps (held : Bool) (inv : σ → Prop) (m : LockM ε σ α) : Prop :=
  ∀ s, inv s → (m (held, s)).1.Settled ∧ (m (held, s)).2.1 = held ∧ inv (m (held, s)).2.2

namespace Keeps

variable {held : Bool} {inv : σ → Prop} {m : LockM ε σ α}

theorem pure (value : α) : Keeps held inv (Pure.pure value : LockM ε σ α) :=
  fun _ holds => ⟨trivial, rfl, holds⟩

theorem raise (error : ε) : Keeps held inv (raise error : LockM ε σ α) :=
  fun _ holds => ⟨trivial, rfl, holds⟩

theorem read (f : σ → α) : Keeps held inv (LockM.read f : LockM ε σ α) :=
  fun _ holds => ⟨trivial, rfl, holds⟩

theorem act {f : σ → Except ε (α × σ)}
    (keeps : ∀ s value next, inv s → f s = .ok (value, next) → inv next) :
    Keeps held inv (LockM.act f) := by
  intro s holds
  unfold LockM.act
  split
  · next value next same => exact ⟨trivial, rfl, keeps s value next holds same⟩
  · exact ⟨trivial, rfl, holds⟩

theorem bind {f : α → LockM ε σ β} (first : Keeps held inv m)
    (second : ∀ value, Keeps held inv (f value)) : Keeps held inv (m >>= f) := by
  intro s holds
  obtain ⟨unblocked, same, after⟩ := first s holds
  match ends : m (held, s) with
  | (.returned value, (held', s')) =>
    rw [ends] at same after
    obtain rfl : held' = held := same
    rw [bind_of_returned ends]
    exact second value s' after
  | (.raised error, s') =>
    rw [ends] at same after
    rw [bind_of_raised ends]
    exact ⟨trivial, same, after⟩
  | (.blocked, s') =>
    rw [ends] at unblocked
    exact unblocked.elim

theorem read_bind {f : σ → α} {k : α → LockM ε σ β}
    (rest : ∀ value, (∃ s, inv s ∧ f s = value) → Keeps held inv (k value)) :
    Keeps held inv (LockM.read f >>= k) :=
  fun s holds => rest (f s) ⟨s, holds, rfl⟩ s holds

theorem withLock (under : Keeps true inv m) : Keeps false inv (withLock m) := by
  intro s holds
  obtain ⟨unblocked, -, after⟩ := under s holds
  unfold LockM.withLock
  rw [if_neg (by simp)]
  match ends : m (true, s) with
  | (.returned value, s') =>
    rw [ends] at after
    exact ⟨trivial, rfl, after⟩
  | (.raised error, s') =>
    rw [ends] at after
    exact ⟨trivial, rfl, after⟩
  | (.blocked, s') =>
    rw [ends] at unblocked
    exact unblocked.elim

theorem mapM {f : α → LockM ε σ β} (each : ∀ value, Keeps held inv (f value)) (values : List α) :
    Keeps held inv (values.mapM f) := by
  induction values with
  | nil => exact pure []
  | cons value rest ih =>
    rw [List.mapM_cons]
    exact bind (each value) fun _ => bind ih fun _ => pure _

end Keeps

end

end LockM

end FreeSwarm.Foundation
