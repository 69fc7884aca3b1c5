import FreeSwarm.Foundation.Blanks
import FreeSwarm.Foundation.Dict
import FreeSwarm.Foundation.Machine
import Mathlib.Algebra.Order.Ring.Rat

/-!
# The accounts of the control plane

The accounts are in one file, which every change of them reads and then rewrites in place. A request needs
an access token as soon as the file has an account: the file is read once for that, and once more for the
subject of the token. Changes are made by other processes than the one that serves the requests, so that
what a request reads may be half written.
-/

namespace FreeSwarm.Auth

open FreeSwarm.Foundation

abbrev Text := List Char

/-! ## The file -/

structure Account (Hash : Type) where
  username : Text
  /-- `password`, hashed. -/
  password : Hash
  createdAt : Rat
  deriving DecidableEq

abbrev Users (Hash : Type) := Dict Text (Account Hash)

/-- What a reader finds in `USERS_FILE`. -/
inductive UsersFile (Hash : Type) where
  | missing
  | torn
  | whole (users : Users Hash)
  deriving DecidableEq

variable {Hash Token : Type}

def UsersFile.loadUsers : UsersFile Hash → Users Hash
  | .missing => .empty
  | .torn => .empty
  | .whole users => users

/-- `auth_enabled`: whether there is an account. -/
def authEnabled (users : Users Hash) : Bool := decide (0 < users.entries.length)

/-! ## Changes -/

section
variable (lower : Text → Text)

/-- `create_user`, which also changes the password of an account: the accounts that it saves. -/
def createUser (username password : Text) (hashed : Hash) (createdAt : Rat) (users : Users Hash) :
    Except Text (Users Hash) :=
  let username := lower (strip username)
  if username = [] then .error "username must not be empty".toList
  else if password.length < 8 then .error "password must be at least 8 characters".toList
  else .ok (users.set username ⟨username, hashed, createdAt⟩)

/-- `delete_user`: the accounts that it saves, if there is such an account. -/
def deleteUser (username : Text) (users : Users Hash) : Option (Users Hash) :=
  let username := lower (strip username)
  if (users.get? username).isSome then some (users.pop username) else none

inductive Change (Hash : Type) where
  /-- `create_user`, with the hash and the time that it takes. -/
  | create (username password : Text) (hashed : Hash) (createdAt : Rat)
  /-- `delete_user`. -/
  | delete (username : Text)
  deriving DecidableEq

def Change.saves : Change Hash → Users Hash → Option (Users Hash)
  | .create username password hashed createdAt, users =>
    (createUser lower username password hashed createdAt users).toOption
  | .delete username, users => deleteUser lower username users

end

/-! ## Tokens -/

/-- What `jwt.decode` raises. -/
inductive TokenFault where
  /-- `ExpiredSignatureError`. -/
  | expired
  /-- Another `InvalidTokenError`. -/
  | invalid

structure TokenPayload where
  typ : Option Text
  sub : Option Text

/-- `jwt.decode` with the signing key, at a time. -/
abbrev JwtDecode (Token : Type) := Token → Rat → Except TokenFault TokenPayload

/-- `decode_token`: the subject of a token, or the detail of the refusal. -/
def decodeToken (jwtDecode : JwtDecode Token) (token : Token) (now : Rat) (expectedTyp : Text)
    (users : Users Hash) : Except Text Text :=
  match jwtDecode token now with
  | .error .expired => .error "token expired".toList
  | .error .invalid => .error "invalid token".toList
  | .ok payload =>
    if payload.typ ≠ some expectedTyp then
      .error ("expected a ".toList ++ expectedTyp ++ " token".toList)
    else match payload.sub with
      | none => .error "unknown subject".toList
      | some subject =>
        if subject = [] ∨ (users.get? subject).isNone then .error "unknown subject".toList
        else .ok subject

/-- `access`. -/
def accessTyp : Text := "access".toList

/-! ## Runs -/

/-- Where a change is. -/
inductive Writer (Hash : Type) where
  | loaded (change : Change Hash) (users : Users Hash)
  | saving (change : Change Hash) (users : Users Hash) (shared : Bool)
  | ended
  deriving DecidableEq

/-- It has truncated the file, and has not ended. -/
def Writer.Saving (writer : Writer Hash) : Prop :=
  match writer with
  | .saving _ _ _ => True
  | _ => False

instance : DecidablePred (@Writer.Saving Hash) := fun writer => by
  cases writer <;> unfold Writer.Saving <;> infer_instance

/-- The accounts that it has read, as long as it has not saved them. -/
def Writer.read : Writer Hash → Option (Users Hash)
  | .loaded _ users => some users
  | _ => none

/-- Another change writes to the file. -/
def Writer.share : Writer Hash → Writer Hash
  | .saving change users _ => .saving change users true
  | writer => writer

/-- Where a request is. -/
inductive Checked (Token : Type) where
  | decoding (token : Token)
  | passed (user : Option Text)
  | refused (detail : Text)
  deriving DecidableEq

structure Pass (Hash Token : Type) where
  token : Option Token
  now : Rat
  accounts : Users Hash
  deriving DecidableEq

/-- The control plane, and those who change its accounts. -/
structure Control (Hash Token : Type) where
  /-- `USERS_FILE`. -/
  file : UsersFile Hash
  accounts : Users Hash
  writers : List (Writer Hash)
  requests : List (Checked Token)
  passes : List (Pass Hash Token)
  deriving DecidableEq

/-- What happens. -/
inductive ControlEvent (Hash Token : Type) where
  | change (change : Change Hash)
  | truncate (writer : Nat)
  | part (writer : Nat) (mixed : UsersFile Hash)
  | write (writer : Nat) (mixed : UsersFile Hash)
  | crash (writer : Nat)
  /-- `require_user`: the file is read. An empty token is none. -/
  | request (token : Option Token) (now : Rat)
  | decode (request : Nat) (now : Rat)

namespace Control

variable (lower : Text → Text) (jwtDecode : JwtDecode Token) (s : Control Hash Token)

def pass (token : Option Token) (now : Rat) : List (Pass Hash Token) :=
  s.passes ++ [⟨token, now, s.accounts⟩]

/-- What happens, if it can. -/
def step : ControlEvent Hash Token → Option (Control Hash Token)
  | .change change =>
    let users := s.file.loadUsers
    let writer := if (change.saves lower users).isSome then .loaded change users else .ended
    some { s with writers := s.writers ++ [writer] }
  | .truncate writer =>
    match s.writers[writer]? with
    | some (.loaded change users) =>
      (change.saves lower users).map fun users' => { s with
        file := .torn
        writers := (s.writers.map Writer.share).set writer
          (.saving change users' (s.writers.any fun other => other.Saving)) }
    | _ => none
  | .part writer mixed =>
    match s.writers[writer]? with
    | some (.saving _ _ shared) => some { s with file := if shared then mixed else .torn }
    | _ => none
  | .write writer mixed =>
    match s.writers[writer]? with
    | some (.saving change users shared) => some { s with
        file := if shared then mixed else .whole users
        accounts := (change.saves lower s.accounts).getD s.accounts
        writers := s.writers.set writer .ended }
    | _ => none
  | .crash writer =>
    match s.writers[writer]? with
    | some .ended => none
    | some _ => some { s with writers := s.writers.set writer .ended }
    | none => none
  | .request token now =>
    if authEnabled s.file.loadUsers then
      match token with
      | none => some { s with requests := s.requests ++ [.refused "not authenticated".toList] }
      | some token => some { s with requests := s.requests ++ [.decoding token] }
    else some { s with requests := s.requests ++ [.passed none], passes := s.pass token now }
  | .decode request now =>
    match s.requests[request]? with
    | some (.decoding token) =>
      match decodeToken jwtDecode token now accessTyp s.file.loadUsers with
      | .ok user => some { s with
          requests := s.requests.set request (.passed (some user))
          passes := s.pass (some token) now }
      | .error detail => some { s with requests := s.requests.set request (.refused detail) }
    | _ => none

/-- No account was made or read. -/
def fresh (users : Option (Users Hash)) : Control Hash Token where
  file := users.elim .missing .whole
  accounts := users.getD .empty
  writers := []
  requests := []
  passes := []

end Control

/-- A request came with a valid access token of an account that there was, or there was none. -/
def Pass.Guarded (jwtDecode : JwtDecode Token) (pass : Pass Hash Token) : Prop :=
  pass.accounts = .empty ∨ ∃ token payload subject account, pass.token = some token ∧
    jwtDecode token pass.now = .ok payload ∧ payload.typ = some accessTyp ∧
    payload.sub = some subject ∧ pass.accounts.get? subject = some account

namespace Control
variable (lower : Text → Text) (jwtDecode : JwtDecode Token) (s : Control Hash Token)

/-- No request passed without a token, and no account is lost. -/
structure Closed : Prop where
  guarded : ∀ pass ∈ s.passes, pass.Guarded jwtDecode
  lists : ∀ users, s.file = .whole users → users = s.accounts

/-- A change truncates the file only if the accounts that it has read are those that there are and no other
change has truncated it and not ended, and no request reads it while it is torn, unless there is no
account. -/
def Careful (s : Control Hash Token) : ControlEvent Hash Token → Prop
  | .truncate writer => (∀ w ∈ s.writers[writer]?, ∀ users ∈ w.read, users = s.accounts) ∧
      ∀ w ∈ s.writers, ¬w.Saving
  | .request _ _ => s.file = .torn → s.accounts = .empty
  | _ => True

instance [DecidableEq Hash] : ∀ ev, Decidable (s.Careful ev)
  | .truncate writer => inferInstanceAs (Decidable ((∀ w ∈ s.writers[writer]?, ∀ users ∈ w.read,
      users = s.accounts) ∧ ∀ w ∈ s.writers, ¬w.Saving))
  | .request _ _ => inferInstanceAs (Decidable (s.file = .torn → s.accounts = .empty))
  | .change _ | .part _ _ | .write _ _ | .crash _ | .decode _ _ => inferInstanceAs (Decidable True)

end Control

/-! ## What is kept -/

@[simp]
theorem authEnabled_eq_false {users : Users Hash} : authEnabled users = false ↔ users = .empty := by
  obtain ⟨entries, nodup⟩ := users
  rw [authEnabled, decide_eq_false_iff_not, Nat.pos_iff_ne_zero, not_not, List.length_eq_zero_iff]
  constructor
  · rintro rfl
    rfl
  · intro same
    exact congrArg Dict.entries same

theorem decodeToken_ok {jwtDecode : JwtDecode Token} {token : Token} {now : Rat} {typ subject : Text}
    {users : Users Hash} (accepted : decodeToken jwtDecode token now typ users = .ok subject) :
    ∃ payload account, jwtDecode token now = .ok payload ∧ payload.typ = some typ ∧
      payload.sub = some subject ∧ users.get? subject = some account := by
  rw [decodeToken] at accepted
  split at accepted
  · cases accepted
  · cases accepted
  · next payload decoded =>
    split_ifs at accepted with other
    split at accepted
    · cases accepted
    · next subject' sub =>
      split_ifs at accepted with unknown
      cases accepted
      rw [not_or, Option.isNone_iff_eq_none] at unknown
      obtain ⟨account, found⟩ := Option.ne_none_iff_exists'.mp unknown.2
      exact ⟨payload, account, decoded, not_not.mp other, sub, found⟩

namespace Control
variable {lower : Text → Text} {jwtDecode : JwtDecode Token} {s s' : Control Hash Token}

/-- Changes are saved one at a time, each with the accounts that there are. -/
structure Kept (lower : Text → Text) (jwtDecode : JwtDecode Token) (s : Control Hash Token) : Prop where
  guarded : ∀ pass ∈ s.passes, pass.Guarded jwtDecode
  loads : s.file ≠ .torn → s.file.loadUsers = s.accounts
  saves : ∀ (i : Nat) change users shared, s.writers[i]? = some (Writer.saving change users shared) →
    change.saves lower s.accounts = some users ∧ shared = false
  alone : ∀ (i j : Nat) (w w' : Writer Hash), s.writers[i]? = some w → s.writers[j]? = some w' → w.Saving → w'.Saving → i = j

theorem kept_fresh (users : Option (Users Hash)) : Kept lower jwtDecode (fresh users) where
  guarded _ mem := by cases mem
  loads _ := by cases users <;> rfl
  saves _ _ _ _ there := by cases there
  alone _ _ _ _ there := by cases there

theorem Kept.closed (kept : Kept lower jwtDecode s) : Closed jwtDecode s where
  guarded := kept.guarded
  lists users whole := by
    have loads := kept.loads (by simp [whole])
    rw [whole] at loads
    exact loads

theorem Kept.asks (kept : Kept lower jwtDecode s) (requests : List (Checked Token)) :
    Kept lower jwtDecode { s with requests := requests } :=
  ⟨kept.guarded, kept.loads, kept.saves, kept.alone⟩

theorem Kept.passes (kept : Kept lower jwtDecode s) {token : Option Token} {now : Rat}
    (guarded : Pass.Guarded jwtDecode ⟨token, now, s.accounts⟩) (requests : List (Checked Token)) :
    Kept lower jwtDecode { s with requests := requests, passes := s.pass token now } where
  guarded pass mem := by
    rcases mem_concat mem with before | rfl
    · exact kept.guarded pass before
    · exact guarded
  loads := kept.loads
  saves := kept.saves
  alone := kept.alone

theorem Kept.rests (kept : Kept lower jwtDecode s) {writers : List (Writer Hash)}
    (before : ∀ (i : Nat) (w : Writer Hash), writers[i]? = some w → w.Saving → s.writers[i]? = some w) :
    Kept lower jwtDecode { s with writers := writers } where
  guarded := kept.guarded
  loads := kept.loads
  saves i change users shared there := kept.saves i change users shared (before i _ there trivial)
  alone i j w w' there there' saving saving' :=
    kept.alone i j w w' (before i w there saving) (before j w' there' saving') saving saving'

theorem saving_of_set {i j : Nat} {w : Writer Hash} (saving : w.Saving)
    (there : (s.writers.set i .ended)[j]? = some w) : s.writers[j]? = some w ∧ i ≠ j := by
  rw [List.getElem?_set] at there
  split_ifs at there with same inside
  · cases there
    exact saving.elim
  · exact ⟨there, same⟩

theorem Kept.step (kept : Kept lower jwtDecode s) {ev : ControlEvent Hash Token}
    (careful : s.Careful ev) (taken : s.step lower jwtDecode ev = some s') :
    Kept lower jwtDecode s' := by
  cases ev with
  | change change =>
    cases taken
    refine kept.rests fun i w there saving => ?_
    rw [List.getElem?_append] at there
    split_ifs at there with old
    · exact there
    · obtain rfl := List.mem_singleton.mp (List.mem_of_getElem? there)
      exact saving.elim
    · obtain rfl := List.mem_singleton.mp (List.mem_of_getElem? there)
      exact saving.elim
  | truncate writer =>
    rw [Control.step] at taken
    split at taken
    case h_2 => cases taken
    case h_1 change users there =>
      obtain ⟨users', saves, rfl⟩ := Option.map_eq_some_iff.mp taken
      obtain ⟨current, free⟩ := careful
      obtain rfl := current _ there users rfl
      have unshared : (s.writers.any fun other => other.Saving) = false := by
        rw [List.any_eq_false]
        exact fun w mem => by simpa using free w mem
      -- no other change is being saved
      have only : ∀ i w, ((s.writers.map Writer.share).set writer
          (.saving change users' (s.writers.any fun other => other.Saving)))[i]? = some w → w.Saving →
          i = writer ∧ w = .saving change users' false := by
        intro i w here saving
        rw [List.getElem?_set, unshared] at here
        split_ifs at here with same inside
        · exact ⟨same.symm, (Option.some.inj here).symm⟩
        · rw [List.getElem?_map] at here
          obtain ⟨w', old, rfl⟩ := Option.map_eq_some_iff.mp here
          have rests := free w' (List.mem_of_getElem? old)
          cases w' with
          | loaded => exact saving.elim
          | saving => exact absurd trivial rests
          | ended => exact saving.elim
      refine ⟨kept.guarded, fun whole => absurd rfl whole, fun i change' users'' shared here => ?_,
        fun i j w w' here here' saving saving' => ?_⟩
      · obtain ⟨rfl, rfl, rfl⟩ := Writer.saving.inj (only i _ here trivial).2
        exact ⟨saves, rfl⟩
      · exact (only i w here saving).1.trans (only j w' here' saving').1.symm
  | part writer mixed =>
    rw [Control.step] at taken
    split at taken
    case h_2 => cases taken
    case h_1 change users shared there =>
      obtain ⟨-, rfl⟩ := kept.saves _ _ _ _ there
      cases taken
      exact ⟨kept.guarded, fun whole => absurd rfl whole, kept.saves, kept.alone⟩
  | write writer mixed =>
    rw [Control.step] at taken
    split at taken
    case h_2 => cases taken
    case h_1 change users shared there =>
      obtain ⟨saves, rfl⟩ := kept.saves _ _ _ _ there
      cases taken
      -- no change is left that is being saved
      have rests : ∀ (i : Nat) (w : Writer Hash), (s.writers.set writer .ended)[i]? = some w → ¬w.Saving := by
        intro i w here saving
        obtain ⟨old, other⟩ := saving_of_set saving here
        exact other (kept.alone writer i _ w there old trivial saving)
      refine ⟨kept.guarded, fun _ => ?_, fun i change' users' shared' here => ?_,
        fun i j w w' here _ saving _ => absurd saving (rests i w here)⟩
      · rw [saves]
        rfl
      · exact absurd trivial (rests i _ here)
  | crash writer =>
    rw [Control.step] at taken
    split at taken
    case h_1 => cases taken
    case h_2 =>
      cases taken
      exact kept.rests fun i w here saving => (saving_of_set saving here).1
    case h_3 => cases taken
  | request token now =>
    unfold Control.step at taken
    dsimp only at taken
    split_ifs at taken with enabled
    · cases token with
      | none =>
        cases taken
        exact kept.asks _
      | some token =>
        cases taken
        exact kept.asks _
    · cases taken
      refine kept.passes (.inl ?_) _
      rw [Bool.not_eq_true, authEnabled_eq_false] at enabled
      by_cases torn : s.file = .torn
      · exact careful torn
      · exact (kept.loads torn).symm.trans enabled
  | decode request now =>
    rw [Control.step] at taken
    split at taken
    case h_2 => cases taken
    case h_1 token there =>
      split at taken
      case h_2 =>
        cases taken
        exact kept.asks _
      case h_1 user accepted =>
        cases taken
        obtain ⟨payload, account, decoded, typ, sub, found⟩ := decodeToken_ok accepted
        have whole : s.file ≠ .torn := by
          intro torn
          rw [torn] at found
          cases found
        rw [kept.loads whole] at found
        exact kept.passes (.inr ⟨token, payload, user, account, rfl, decoded, typ, sub, found⟩) _

/-- Authentication is not open and no account is lost, in every run in which each change saves what it makes
of the accounts that there are, while no other one is saved, and in which no request reads the file while it
is torn, unless there is no account. -/
theorem closed_of_careful {users : Option (Users Hash)}
    (reached : Reaches (step lower jwtDecode) Careful (fresh users) s) : Closed jwtDecode s :=
  (reached.invariant (Kept lower jwtDecode) (kept_fresh users)
    fun _ _ _ kept careful taken => kept.step careful taken).closed

/-- One account. -/
def alice : Users Unit := Dict.empty.set "alice".toList ⟨"alice".toList, (), 0⟩

def aliceToken : JwtDecode Nat := fun token now =>
  if token ≠ 1 then .error .invalid
  else if now < 1800 then .ok ⟨some accessTyp, some "alice".toList⟩ else .error .expired

/-- An account is made, and a request without a token, one with it and one with it when it is old come. -/
theorem alice_closed : Closed aliceToken (⟨.whole alice, alice, [.ended],
    [.refused "not authenticated".toList, .passed (some "alice".toList), .refused "token expired".toList],
    [⟨some 1, 60, alice⟩]⟩ : Control Unit Nat) :=
  closed_of_careful (show Reaches (step id aliceToken) Careful (fresh none) _ from .checked [
    .change (.create " alice ".toList "password".toList () 0), .truncate 0, .write 0 .missing,
    .request none 0, .request (some 1) 30, .decode 1 60, .request (some 1) 1800, .decode 2 1800]
    (by decide))

/-- A request comes while the password of the only account is changed: it passes without a token. -/
theorem change_opens : ¬∀ s : Control Unit Nat,
    Reaches (step id aliceToken) Always (fresh none) s → Closed aliceToken s := by
  intro all
  have reached : Reaches (step id aliceToken) Always (fresh none) (⟨.torn, alice,
      [.ended, .saving (.create "alice".toList "new password".toList () 0) alice false],
      [.passed none], [⟨none, 60, alice⟩]⟩ : Control Unit Nat) :=
    Reaches.run .refl [.change (.create " alice ".toList "password".toList () 0), .truncate 0,
      .write 0 .missing, .change (.create "alice".toList "new password".toList () 0), .truncate 1,
      .request none 60] (fun _ _ _ => trivial) (by decide)
  rcases (all _ reached).guarded _ List.mem_cons_self with empty | ⟨token, _, _, _, given, _⟩
  · exact absurd empty (by decide)
  · cases given

end Control
end FreeSwarm.Auth
