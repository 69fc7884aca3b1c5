import FreeSwarm.Auth.Users

/-!
# The signing key

The first call writes a key as it is and later ones strip it. Where it has no blank at its ends, and no other call looks
for it before it is written, all calls have one key, and a token holds for its type and time as long as there is an
account of its name, old or new.
-/

namespace FreeSwarm.Auth

open FreeSwarm.Foundation

/-! ## The key -/

abbrev Key := List UInt8

/-- `bytes.strip`. -/
def stripKey (key : Key) : Key :=
  let blank (b : UInt8) : Bool := b = 32 || 9 ≤ b && b ≤ 13
  ((key.dropWhile blank).reverse.dropWhile blank).reverse

structure KeyFolder where
  /-- `SECRET_FILE`. -/
  file : Option Key
  /-- The keys that calls are about to write. -/
  generated : List Key
  /-- What calls have returned. -/
  returned : List Key

inductive KeyEvent where
  /-- A call looks at the file, and draws a key if it finds none. -/
  | look (drawn : Key)
  | write (call : Nat)

namespace KeyFolder

variable (s : KeyFolder)

/-- `_signing_key`, in its two parts. -/
def step : KeyEvent → Option KeyFolder
  | .look drawn =>
    match (s.file.map stripKey).filter fun data => decide (32 ≤ data.length) with
    | some data => some { s with returned := s.returned ++ [data] }
    | none => some { s with generated := s.generated ++ [drawn] }
  | .write call => s.generated[call]?.map fun key =>
      { s with file := some key, generated := s.generated.eraseIdx call, returned := s.returned ++ [key] }

/-- No blank is at an end of the key, and no call is about to write another. -/
def Undisturbed : KeyEvent → Prop
  | .look drawn => s.generated = [] ∧ drawn.length = 64 ∧ stripKey drawn = drawn
  | .write _ => True

def empty : KeyFolder := ⟨none, [], []⟩

/-- One key is in the file, or is about to be. -/
def Single : Prop :=
  ∃ key : Key, 32 ≤ key.length ∧ stripKey key = key ∧
    ((s.file = none ∧ s.returned = [] ∧ (s.generated = [] ∨ s.generated = [key])) ∨
      (s.file = some key ∧ s.generated = [] ∧ ∀ k ∈ s.returned, k = key))

theorem Single.step {s s' : KeyFolder} {ev : KeyEvent} (single : s.Single) (undisturbed : s.Undisturbed ev)
    (taken : s.step ev = some s') : s'.Single := by
  obtain ⟨key, long, bare, ⟨file, returned, generated⟩ | ⟨file, generated, returned⟩⟩ := single
  · cases ev with
    | look drawn =>
      obtain ⟨idle, full, bare'⟩ := undisturbed
      simp only [KeyFolder.step, file, Option.map_none, Option.filter_none, Option.some.injEq] at taken
      subst taken
      exact ⟨drawn, by omega, bare', .inl ⟨rfl, returned, .inr (by rw [idle]; rfl)⟩⟩
    | write call =>
      obtain ⟨key', there, rfl⟩ := Option.map_eq_some_iff.mp taken
      rcases generated with none_ | one
      · simp [none_] at there
      · rw [one] at there
        obtain ⟨rfl, rfl⟩ : call = 0 ∧ key = key' := by
          cases call with
          | zero => exact ⟨rfl, Option.some.inj there⟩
          | succ n => simp at there
        exact ⟨key, long, bare, .inr ⟨rfl, by simp [one], by simp [returned]⟩⟩
  · cases ev with
    | look drawn =>
      have found : ((some key).map stripKey).filter (fun data => decide (32 ≤ data.length)) = some key := by
        rw [Option.map_some, bare, Option.filter_some, if_pos (decide_eq_true long)]
      simp only [KeyFolder.step, file, found, Option.some.injEq] at taken
      subst taken
      refine ⟨key, long, bare, .inr ⟨rfl, generated, fun k mem => ?_⟩⟩
      rcases mem_concat mem with before | now
      · exact returned k before
      · exact now
    | write call =>
      obtain ⟨key', there, -⟩ := Option.map_eq_some_iff.mp taken
      simp [generated] at there

end KeyFolder

/-! ## Tokens -/

def ACCESS_TTL_S : Int := 30 * 60

def REFRESH_TTL_S : Int := 14 * 24 * 3600

def refreshTyp : Text := "refresh".toList

structure Claims where
  sub : Text
  iat : Int
  exp : Int
  typ : Text
  jti : Text
  deriving DecidableEq

/-- PyJWT. -/
structure Jwt (Token : Type) where
  encode : Claims → Key → Token
  decode : Key → JwtDecode Token
  /-- Its own tokens are read, from the time that they were issued at. -/
  decode_encode : ∀ key (claims : Claims) (now : Rat), (claims.iat : Rat) ≤ now → decode key (encode claims key) now =
    if (claims.exp : Rat) ≤ now then .error .expired else .ok ⟨some claims.typ, some claims.sub⟩

variable {Hash Token : Type} (jwt : Jwt Token)

/-- `_encode`, with the random part and the time that it takes. -/
def encode (key : Key) (subject : Text) (ttl : Int) (typ jti : Text) (now : Rat) : Token :=
  jwt.encode ⟨subject, now.floor, now.floor + ttl, typ, jti⟩ key

structure TokenPair (Token : Type) where
  accessToken : Token
  refreshToken : Token
  tokenType : Text
  expiresIn : Int

/-- `issue_tokens`: each token is made with the key of a call, at its time. -/
def issueTokens (username : Text) (key key' : Key) (jti jti' : Text) (now now' : Rat) : TokenPair Token where
  accessToken := encode jwt key username ACCESS_TTL_S accessTyp jti now
  refreshToken := encode jwt key' username REFRESH_TTL_S refreshTyp jti' now'
  tokenType := "bearer".toList
  expiresIn := ACCESS_TTL_S

/-- A token of a user is accepted: it is asked for its type, before its time is over, while there is such an account. -/
def Holds (users : Users Hash) (username typ expected : Text) (ttl : Int) (issued now : Rat) : Prop :=
  typ = expected ∧ now < (issued.floor + ttl : Int) ∧ username ≠ [] ∧ (users.get? username).isSome

theorem decodeToken_encode (users : Users Hash) (key : Key) (username typ expected jti : Text) (ttl : Int)
    {issued now : Rat} (later : issued ≤ now) :
    decodeToken (jwt.decode key) (encode jwt key username ttl typ jti issued) now expected users = .ok username ↔
      Holds users username typ expected ttl issued now := by
  have iat : (issued.floor : Rat) ≤ now := (Rat.floor_le issued).trans later
  rw [decodeToken, encode, jwt.decode_encode _ _ _ iat]
  split
  next expired =>
    refine iff_of_false (fun eq => by cases eq) fun holds => ?_
    split at expired
    · exact absurd holds.2.1 (not_lt.mpr ‹_›)
    · cases expired
  next invalid =>
    split at invalid <;> cases invalid
  next payload read =>
    split at read
    · cases read
    next early =>
      cases read
      dsimp only
      by_cases own : typ = expected
      · rw [if_neg (by simpa using own)]
        by_cases unknown : username = [] ∨ (users.get? username).isNone
        · rw [if_pos unknown]
          refine iff_of_false (fun eq => by cases eq) fun holds => ?_
          rcases unknown with empty | none_
          · exact holds.2.2.1 empty
          · have known := holds.2.2.2
            rw [Option.isNone_iff_eq_none.mp none_] at known
            cases known
        · rw [if_neg unknown]
          rw [not_or] at unknown
          exact iff_of_true rfl ⟨own, not_le.mp early, unknown.1, by simpa [Option.isSome_iff_ne_none] using unknown.2⟩
      · rw [if_pos (by simpa using own)]
        exact iff_of_false (fun eq => by cases eq) fun holds => own holds.1

/-- All calls have one key, and each token of a pair is accepted for its type alone, until it expires, exactly while
there is an account of its name. -/
theorem tokens_hold {s : KeyFolder} (reached : Reaches KeyFolder.step KeyFolder.Undisturbed .empty s) :
    (∀ key ∈ s.returned, ∀ key' ∈ s.returned, key = key') ∧
      ∀ key ∈ s.returned, ∀ key' ∈ s.returned, ∀ key'' ∈ s.returned, ∀ (users : Users Hash) (username expected jti jti')
        (issued issued' now : Rat), issued ≤ now → issued' ≤ now →
        let pair := issueTokens jwt username key key' jti jti' issued issued'
        (decodeToken (jwt.decode key'') pair.accessToken now expected users = .ok username ↔
          Holds users username accessTyp expected ACCESS_TTL_S issued now) ∧
        (decodeToken (jwt.decode key'') pair.refreshToken now expected users = .ok username ↔
          Holds users username refreshTyp expected REFRESH_TTL_S issued' now) := by
  have one : ∀ key ∈ s.returned, ∀ key' ∈ s.returned, key = key' := by
    obtain ⟨key, -, -, ⟨-, none_, -⟩ | ⟨-, -, all⟩⟩ := reached.invariant KeyFolder.Single
      ⟨List.replicate 32 0, by decide, by decide, .inl ⟨rfl, rfl, .inl rfl⟩⟩ fun _ _ _ single undisturbed taken =>
        single.step undisturbed taken
    · simp [none_]
    · exact fun k mem k' mem' => (all k mem).trans (all k' mem').symm
  refine ⟨one, fun key mem key' mem' key'' mem'' users username expected jti jti' issued issued' now le le' => ?_⟩
  rw [issueTokens, one key mem key'' mem'', one key' mem' key'' mem'']
  exact ⟨decodeToken_encode jwt users key'' username _ expected jti _ le,
    decodeToken_encode jwt users key'' username _ expected jti' _ le'⟩

/-- A token is its claims and its key. -/
def plainJwt : Jwt (Claims × Key) where
  encode claims key := (claims, key)
  decode key token now :=
    if token.2 ≠ key ∨ now < token.1.iat then .error .invalid
    else if (token.1.exp : Rat) ≤ now then .error .expired
    else .ok ⟨some token.1.typ, some token.1.sub⟩
  decode_encode key claims now later := by simp [not_lt.mpr later]

def firstKey : Key := List.replicate 64 1

theorem tokens_hold_first : decodeToken (plainJwt.decode firstKey) (issueTokens plainJwt ['a'] firstKey firstKey [] [] 0
      0).accessToken 5 accessTyp (Dict.empty.set ['a'] ⟨['a'], (), 0⟩) = .ok ['a'] := by
  have reached : Reaches KeyFolder.step KeyFolder.Undisturbed .empty ⟨some firstKey, [], [firstKey]⟩ :=
    .step (.step .refl (show KeyFolder.Undisturbed .empty (.look firstKey) from ⟨rfl, by decide, by decide⟩) rfl)
      (show KeyFolder.Undisturbed ⟨none, [firstKey], []⟩ (.write 0) from trivial) rfl
  have mem : firstKey ∈ [firstKey] := List.mem_singleton_self _
  refine ((tokens_hold plainJwt reached).2 _ mem _ mem _ mem _ _ _ _ _ _ _ _ (by decide) (by decide)).1.mpr ?_
  exact ⟨rfl, by with_unfolding_all decide, by decide, by with_unfolding_all decide⟩

/-- The token of a deleted user is accepted for the next account of that name. -/
theorem deleted_accepted :
    let token := (issueTokens plainJwt "alice".toList firstKey firstKey [] [] 0 0).accessToken
    let create := createUser id "alice".toList "long enough".toList ()
    ((create 0 .empty).toOption.bind fun users => (deleteUser id "alice".toList users).bind fun users' =>
      (create 9 users').toOption.map fun users'' =>
        (decodeToken (plainJwt.decode firstKey) token 8 accessTyp users',
          decodeToken (plainJwt.decode firstKey) token 10 accessTyp users'')) =
      some (.error "unknown subject".toList, .ok "alice".toList) := by
  with_unfolding_all decide

end FreeSwarm.Auth
