import FreeSwarm.Foundation.FairRun
import FreeSwarm.TaskKit.Oauth

/-!
# What the authorization server does over time

A history keeps, beside the state of the server, what the framework loaded and what was done, the latest
first. The server takes the lock that it holds, or raises, for some tokens that it is asked to verify or
to revoke, and it accepts texts that decode to a signature it made. Without these, it accepts the tokens
that it issued until they expire, redeems each code and each refresh token once, and refreshes no scope
that was not granted.
-/

namespace FreeSwarm.TaskKit

open FreeSwarm.Foundation

variable (Hash : Type)

inductive TokenSource where
  | code (code : Text)
  | refresh (token : Hash)
  deriving DecidableEq

structure TokenIssue where
  source : TokenSource Hash
  scopes : List Text
  payload : Payload
  access : Text
  refresh : Hash
  deriving DecidableEq

/-- What was done. -/
inductive TaskRecord where
  | blocked
  | granted (c : AuthorizationCode)
  | issued (i : TokenIssue Hash)
  | verified (token : Text) (now : Time) (answer : Except TaskError (Option Payload))
  | revoked (token : Text)
  deriving DecidableEq

/-- A call of the framework, or of the consent page. What is generated is given with it. -/
inductive TaskEvent where
  | authorize (tx : Text) (now : Time) (clientId : Text) (params : AuthorizationParams)
  | consentSubmit (tx passphrase decision : Text) (now : Time) (code : Text)
  | loadAuthorizationCode (clientId code : Text) (now : Time)
  /-- `exchange_authorization_code`, with a code that was loaded. -/
  | exchangeAuthorizationCode (clientId : Text) (c : AuthorizationCode) (now : Time)
      (jti refresh : Text)
  | loadRefreshToken (clientId token : Text) (now : Time)
  /-- `exchange_refresh_token`, with a token that was loaded. -/
  | exchangeRefreshToken (clientId : Text) (r : RefreshToken) (scopes : List Text) (now : Time)
      (jti refresh : Text)
  | verify (token : Text) (now : Time)
  | revokeToken (token : Text) (now : Time)

/-- The server with what was loaded and done. -/
structure TaskHistory where
  held : Bool
  server : TaskServer Hash
  codes : List AuthorizationCode
  refreshTokens : List RefreshToken
  log : List (TaskRecord Hash)
  deriving DecidableEq

namespace TaskHistory

open TaskServerOAuth

variable {Hash : Type} [DecidableEq Hash] (env : OauthEnv Hash) (h : TaskHistory Hash)

def after {α : Type} (m : TaskCall Hash α) (returned : α → TaskHistory Hash → TaskHistory Hash)
    (raised : TaskError → TaskHistory Hash → TaskHistory Hash) : TaskHistory Hash :=
  match m (h.held, h.server) with
  | (.returned value, (held, server)) => returned value { h with held := held, server := server }
  | (.raised error, (held, server)) => raised error { h with held := held, server := server }
  | (.blocked, (held, server)) =>
    { h with held := held, server := server, log := .blocked :: h.log }

def note (r : TaskRecord Hash) (h : TaskHistory Hash) : TaskHistory Hash := { h with log := r :: h.log }

/-- The code that an approved request received. -/
def grantedBy (code : Text) (answer : Except Text Redirect) (s : TaskServer Hash) :
    Option AuthorizationCode :=
  match answer with
  | .ok redirect => if ("code".toList, some code) ∈ redirect.params then s.codes.get? code else none
  | .error _ => none

def noteIssue (source : TokenSource Hash) (scopes : List Text) (p : Payload) (tokens : OAuthToken)
    (h : TaskHistory Hash) : TaskHistory Hash :=
  h.note (.issued ⟨source, scopes, p, tokens.accessToken, env.hash tokens.refreshToken⟩)

/-- A call. -/
def step : TaskEvent → Option (TaskHistory Hash)
  | .authorize tx now clientId params =>
    some (h.after (authorize env tx now clientId params) (fun _ h => h) fun _ h => h)
  | .consentSubmit tx passphrase decision now code =>
    some (h.after (consentSubmit env tx passphrase decision now code)
      (fun answer h => { h with
        log := ((grantedBy code answer h.server).map TaskRecord.granted).toList ++ h.log })
      fun _ h => h)
  | .loadAuthorizationCode clientId code now =>
    some (h.after (loadAuthorizationCode clientId code now)
      (fun c h => { h with codes := c.toList ++ h.codes }) fun _ h => h)
  | .exchangeAuthorizationCode clientId c now jti refresh =>
    if c ∈ h.codes then
      some (h.after (exchangeAuthorizationCode env clientId c now jti refresh)
        (noteIssue env (.code c.code) c.scopes (payload env clientId c.scopes now jti)) fun _ h => h)
    else none
  | .loadRefreshToken clientId token now =>
    some (h.after (loadRefreshToken env clientId token now)
      (fun r h => { h with refreshTokens := r.toList ++ h.refreshTokens }) fun _ h => h)
  | .exchangeRefreshToken clientId r scopes now jti refresh =>
    if r ∈ h.refreshTokens then
      some (h.after (exchangeRefreshToken env clientId r scopes now jti refresh)
        (noteIssue env (.refresh (env.hash r.token)) (refreshedScopes r scopes)
          (payload env clientId (refreshedScopes r scopes) now jti)) fun _ h => h)
    else none
  | .verify token now =>
    some (h.after (verify env token now) (fun p => note (.verified token now (.ok p)))
      fun e => note (.verified token now (.error e)))
  | .revokeToken token now =>
    some (h.after (revokeToken env token now) (fun _ => note (.revoked token))
      fun e => note (.verified token now (.error e)))

end TaskHistory

def Parts (token body sig : Text) : Prop := token.splitOn '.' = ["fsat".toList, body, sig]

instance Parts.decidable (token body sig : Text) : Decidable (Parts token body sig) :=
  inferInstanceAs (Decidable (_ = _))

/-! ## The law -/

section

variable {Hash : Type}

def Accepts (log : List (TaskRecord Hash)) (token : Text) (now : Time) (p : Payload) : Prop :=
  (∃ i : TokenIssue Hash, .issued i ∈ log ∧ i.access = token ∧ i.payload = p) ∧
    ¬(p.exp : ℚ) < now ∧ .revoked token ∉ log

/-- A pair may be issued: for a code that was granted with its scopes, or for the refresh token of a
pair with no more scopes. Nothing was issued for it before. -/
def TokenIssue.Justified (i : TokenIssue Hash) (before : List (TaskRecord Hash)) : Prop :=
  (∀ j, .issued j ∈ before → j.source ≠ i.source) ∧
    match i.source with
    | .code code => ∃ c, .granted c ∈ before ∧ c.code = code ∧ i.scopes = c.scopes
    | .refresh token => ∃ j, .issued j ∈ before ∧ j.refresh = token ∧ i.scopes ⊆ j.scopes

/-- What was done is right: no call is blocked, no verification raises, and exactly the tokens are
accepted that should be. -/
def TaskRecord.Right (r : TaskRecord Hash) (before : List (TaskRecord Hash)) : Prop :=
  match r with
  | .blocked => False
  | .granted _ => True
  | .issued i => i.Justified before
  | .verified token now answer =>
    ∃ result, answer = .ok result ∧ ∀ p, result = some p ↔ Accepts before token now p
  | .revoked _ => True

inductive Descends (log : List (TaskRecord Hash)) (c : AuthorizationCode) : TokenIssue Hash → Prop
  | code {i : TokenIssue Hash} (granted : .granted c ∈ log) (issued : .issued i ∈ log)
      (source : i.source = .code c.code) : Descends log c i
  | refresh {i j : TokenIssue Hash} (before : Descends log c j) (issued : .issued i ∈ log)
      (source : i.source = .refresh j.refresh) : Descends log c i

variable (env : OauthEnv Hash) (h : TaskHistory Hash)

/-- The law of the authorization server. -/
structure TaskHistory.Lawful : Prop where
  records : EachAfter TaskRecord.Right h.log
  granted : ∀ i, .issued i ∈ h.log → ∃ c, Descends h.log c i ∧ i.scopes ⊆ c.scopes

/-- What the libraries promise: what is generated was not generated before, a payload that is written is
read back, and nobody else makes a signature. -/
def TaskHistory.Promised : TaskEvent → Prop
  | .consentSubmit _ _ _ _ code => ∀ c, .granted c ∈ h.log → c.code ≠ code
  | .exchangeAuthorizationCode clientId c now jti refresh =>
    let p := TaskServerOAuth.payload env clientId c.scopes now jti
    (∀ i, .issued i ∈ h.log → i.refresh ≠ env.hash refresh) ∧ env.loads (env.dumps p) = some p
  | .exchangeRefreshToken clientId r scopes now jti refresh =>
    let p := TaskServerOAuth.payload env clientId (TaskServerOAuth.refreshedScopes r scopes) now jti
    (∀ i, .issued i ∈ h.log → i.refresh ≠ env.hash refresh) ∧ env.loads (env.dumps p) = some p
  | .verify token _ | .revokeToken token _ =>
    ∀ body sig, Parts token body sig → Base64.decodePadded sig = some (env.mac body) →
      ∃ i, .issued i ∈ h.log ∧ body = Base64.encode (env.dumps i.payload)
  | _ => True

def TaskHistory.Expired (body : Text) (now : Time) : Prop :=
  ∀ i, .issued i ∈ h.log → body = Base64.encode (env.dumps i.payload) → (i.payload.exp : ℚ) < now

/-- The signature of a token that is verified or revoked can be decoded. Where it is the right one, it
is written as the server writes it, or the token expired, and a token that is revoked expired. No token
is verified at a reading of the clock before its end that was revoked at one behind it. -/
def TaskHistory.Clean : TaskEvent → Prop
  | .verify token now =>
    (∀ body sig, Parts token body sig → ∃ bytes, Base64.decodePadded sig = some bytes ∧
      (env.mac body = bytes → sig = Base64.encode bytes ∨ h.Expired env body now)) ∧
    (.revoked token ∈ h.log → ∀ i, .issued i ∈ h.log → i.access = token → (i.payload.exp : ℚ) < now)
  | .revokeToken token now =>
    ∀ body sig, Parts token body sig → ∃ bytes, Base64.decodePadded sig = some bytes ∧
      (env.mac body = bytes → h.Expired env body now)
  | _ => True

end

end FreeSwarm.TaskKit
