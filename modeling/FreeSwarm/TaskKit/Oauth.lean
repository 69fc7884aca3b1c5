import FreeSwarm.Foundation.Base64
import FreeSwarm.Foundation.Dict
import FreeSwarm.Foundation.LockM
import FreeSwarm.Foundation.Text
import Mathlib.Algebra.Order.Ring.Rat

/-!
# The authorization server of a task server

A task server issues its own tokens. The operator approves a request with a passphrase, which makes an
authorization code; a code is exchanged for an access token, which is signed, and a refresh token, whose
hash is stored, and a refresh token for the next pair. What is stored is changed under a lock that is not
reentrant.
-/

namespace FreeSwarm.TaskKit

open FreeSwarm.Foundation

abbrev Text := List Char

/-- A reading of the clock, in seconds. -/
abbrev Time := ℚ

/-- `SCOPE`. -/
def taskScope : Text := "tasks".toList
def accessTtl : Int := 3600
def refreshTtl : Int := 30 * 86400
def codeTtl : Time := 300
def consentTtl : Time := 600
def maxFailures : Nat := 5
def lockoutS : Time := 600

/-- `int(time.time())`: the whole seconds of a reading. -/
def wholeSeconds (now : Time) : Int := now.num.tdiv now.den

/-- What a client asks for at the authorization endpoint. -/
structure AuthorizationParams where
  scopes : Option (List Text)
  state : Option Text
  codeChallenge : Text
  redirectUri : Text
  redirectUriProvidedExplicitly : Bool
  resource : Option Text
  deriving DecidableEq

/-- The scopes of a request: those it names, or the only one there is. -/
def AuthorizationParams.granted (params : AuthorizationParams) : List Text :=
  match params.scopes with
  | none | some [] => [taskScope]
  | some scopes => scopes

structure AuthorizationCode where
  code : Text
  scopes : List Text
  expiresAt : Time
  clientId : Text
  codeChallenge : Text
  redirectUri : Text
  redirectUriProvidedExplicitly : Bool
  resource : Option Text
  subject : Text := "operator".toList
  deriving DecidableEq

structure RefreshToken where
  token : Text
  clientId : Text
  scopes : List Text
  expiresAt : Int
  resource : Text
  subject : Text := "operator".toList
  deriving DecidableEq

/-- What an access token says. -/
structure Payload where
  jti : Text
  cid : Text
  scp : List Text
  exp : Int
  aud : Text
  iat : Int
  deriving DecidableEq

structure RefreshRecord where
  cid : Text
  scp : List Text
  exp : Int
  deriving DecidableEq

/-- `tokens.json`. -/
structure TokenStore (Hash : Type) where
  refresh : Dict Hash RefreshRecord := .empty
  revoked : Dict Text Int := .empty
  deriving DecidableEq

/-- A request that waits for the operator. -/
structure Consent where
  expiry : Time
  clientId : Text
  params : AuthorizationParams
  deriving DecidableEq

structure TaskServer (Hash : Type) where
  consents : Dict Text Consent := .empty
  codes : Dict Text AuthorizationCode := .empty
  /-- `_failures`: when a wrong passphrase was given. -/
  failures : List Time := []
  store : TokenStore Hash := {}
  deriving DecidableEq

structure OAuthToken where
  accessToken : Text
  expiresIn : Int := accessTtl
  scope : Text
  refreshToken : Text
  deriving DecidableEq

inductive TaskError where
  /-- A `TokenError`, with its code and its description. -/
  | token (error description : Text)
  | malformed
  deriving DecidableEq

/-- Where the browser is sent to, and with which parameters. -/
structure Redirect where
  uri : Text
  params : List (Text × Option Text)
  deriving DecidableEq

/-- The server's secrets and what it computes with them. -/
structure OauthEnv (Hash : Type) where
  baseUrl : Text
  mac : Text → List UInt8
  /-- `json.dumps` of a payload, in bytes. -/
  dumps : Payload → List UInt8
  /-- `json.loads` of some bytes, if it does not raise. -/
  loads : List UInt8 → Option Payload
  hash : Text → Hash
  approves : Text → Bool

namespace OauthEnv
variable {Hash : Type} (env : OauthEnv Hash)

def resource : Text := env.baseUrl ++ "/mcp".toList

def accessToken (p : Payload) : Text :=
  let body := Base64.encode (env.dumps p)
  "fsat".toList ++ '.' :: body ++ '.' :: Base64.encode (env.mac body)

def signed (token : Text) : Except TaskError (Option Payload) :=
  match token.splitOn '.' with
  | [kind, body, sig] =>
    if kind ≠ "fsat".toList then .ok none
    else
      match Base64.decodePadded sig with
      | none => .error .malformed
      | some bytes =>
        if env.mac body ≠ bytes then .ok none
        else
          match (Base64.decodePadded body).bind env.loads with
          | none => .error .malformed
          | some p => .ok (some p)
  | _ => .ok none

end OauthEnv

/-- `_store`: what is in the file and did not expire. -/
def TokenStore.live {Hash : Type} (s : TokenStore Hash) (now : Time) : TokenStore Hash where
  refresh := s.refresh.filter fun _ r => now < (r.exp : ℚ)
  revoked := s.revoked.filter fun _ exp => now < (exp : ℚ)

abbrev TaskCall (Hash α : Type) := LockM TaskError (TaskServer Hash) α

namespace TaskServerOAuth

open LockM

variable {Hash : Type} [DecidableEq Hash] (env : OauthEnv Hash)

/-- `authorize`: the operator is asked on a page of the server. -/
def authorize (tx : Text) (now : Time) (clientId : Text) (params : AuthorizationParams) :
    TaskCall Hash Text := do
  withLock (act fun s => .ok ((), { s with
    consents := (s.consents.filter fun _ consent => now < consent.expiry).set tx
      ⟨now + consentTtl, clientId, params⟩ }))
  pure (env.baseUrl ++ "/oauth/consent?tx=".toList ++ tx)

/-- The code that an approved request receives. -/
def Consent.code (consent : Consent) (now : Time) (code : Text) : AuthorizationCode where
  code := code
  scopes := consent.params.granted
  expiresAt := now + codeTtl
  clientId := consent.clientId
  codeChallenge := consent.params.codeChallenge
  redirectUri := consent.params.redirectUri
  redirectUriProvidedExplicitly := consent.params.redirectUriProvidedExplicitly
  resource := consent.params.resource

/-- What `consent_submit` does under the lock: where the browser is sent, or what is shown. -/
def submit (s : TaskServer Hash) (tx passphrase decision : Text) (now : Time) (code : Text) :
    Except Text Redirect × TaskServer Hash :=
  match s.consents.get? tx with
  | none => (.error "This approval request has expired -- start again from the console.".toList, s)
  | some consent =>
    let recent := s.failures.filter fun failure => now - lockoutS < failure
    if consent.expiry < now then
      (.error "This approval request has expired -- start again from the console.".toList, s)
    else if decision ≠ "approve".toList then
      (.ok ⟨consent.params.redirectUri, [("error".toList, some "access_denied".toList),
        ("state".toList, consent.params.state)]⟩, { s with consents := s.consents.pop tx })
    else if maxFailures ≤ recent.length then
      (.error "Too many wrong passphrases -- approvals are locked for ten minutes.".toList,
        { s with failures := recent })
    else if !env.approves passphrase then
      (.error "Wrong passphrase.".toList, { s with failures := recent ++ [now] })
    else
      (.ok ⟨consent.params.redirectUri,
          [("code".toList, some code), ("state".toList, consent.params.state)]⟩,
        { s with
          consents := s.consents.pop tx
          failures := recent
          codes := (s.codes.filter fun _ c => now < c.expiresAt).set code
            (Consent.code consent now code) })

/-- `consent_submit`: the operator approves a request, or does not. -/
def consentSubmit (tx passphrase decision : Text) (now : Time) (code : Text) :
    TaskCall Hash (Except Text Redirect) :=
  withLock (act fun s => .ok (submit env s tx passphrase decision now code))

def loadAuthorizationCode (clientId code : Text) (now : Time) :
    TaskCall Hash (Option AuthorizationCode) := do
  let c ← withLock (read fun s => s.codes.get? code)
  pure (c.filter fun c => c.clientId = clientId ∧ ¬c.expiresAt < now)

variable (clientId : Text)

/-- `_issue`: the payload of the access token. -/
def payload (scopes : List Text) (now : Time) (jti : Text) : Payload where
  jti := jti
  cid := clientId
  scp := scopes
  exp := wholeSeconds now + accessTtl
  aud := env.resource
  iat := wholeSeconds now

/-- `_issue`: a pair of tokens, of which the refresh token is stored. -/
def issue (scopes : List Text) (now : Time) (jti refresh : Text) :
    TaskCall Hash OAuthToken := do
  withLock (act fun s => .ok ((), { s with
    store := { s.store.live now with
      refresh := (s.store.live now).refresh.set (env.hash refresh)
        ⟨clientId, scopes, wholeSeconds now + refreshTtl⟩ } }))
  pure {
    accessToken := env.accessToken (payload env clientId scopes now jti)
    scope := [' '].intercalate scopes
    refreshToken := refresh }

/-- `exchange_authorization_code`: a code is used once. -/
def exchangeAuthorizationCode (c : AuthorizationCode) (now : Time)
    (jti refresh : Text) : TaskCall Hash OAuthToken := do
  withLock (act fun s =>
    if (s.codes.get? c.code).isSome then .ok ((), { s with codes := s.codes.pop c.code })
    else .error (.token "invalid_grant".toList "authorization code already used".toList))
  issue env clientId c.scopes now jti refresh

def loadRefreshToken (clientId token : Text) (now : Time) : TaskCall Hash (Option RefreshToken) := do
  let r ← withLock (read fun s => (s.store.live now).refresh.get? (env.hash token))
  pure ((r.filter fun r => r.cid = clientId).map fun r =>
    { token := token
      clientId := r.cid
      scopes := r.scp
      expiresAt := r.exp
      resource := env.resource })

/-- The scopes of a refreshed token: those that are asked for, or all, as far as they were granted. -/
def refreshedScopes (r : RefreshToken) (scopes : List Text) : List Text :=
  (if scopes = [] then r.scopes else scopes).filter fun scope => scope ∈ r.scopes

/-- `exchange_refresh_token`: a refresh token is used once. -/
def exchangeRefreshToken (r : RefreshToken) (scopes : List Text) (now : Time)
    (jti refresh : Text) : TaskCall Hash OAuthToken := do
  withLock (act fun s =>
    if ((s.store.live now).refresh.get? (env.hash r.token)).isSome then
      .ok ((), { s with store := { s.store.live now with
        refresh := (s.store.live now).refresh.pop (env.hash r.token) } })
    else .error (.token "invalid_grant".toList "refresh token already used or revoked".toList))
  issue env clientId (refreshedScopes r scopes) now jti refresh

/-- `verify`: the payload of an access token that did not expire and was not revoked. -/
def verify (token : Text) (now : Time) : TaskCall Hash (Option Payload) :=
  match env.signed token with
  | .error error => raise error
  | .ok none => pure none
  | .ok (some p) =>
    if (p.exp : ℚ) < now ∨ p.aud ≠ env.resource then pure none
    else withLock (read fun s =>
      if ((s.store.live now).revoked.get? p.jti).isSome then none else some p)

/-- `revoke_token`: a token of either kind is revoked. -/
def revokeToken (token : Text) (now : Time) : TaskCall Hash Unit :=
  withLock do
    let s ← read fun s => s.store.live now
    let p ← if "fsat.".toList.isPrefixOf token then verify env token now else pure none
    act fun server => .ok ((), { server with
      store := {
        refresh := s.refresh.pop (env.hash token)
        revoked := match p with
          | some p => s.revoked.set p.jti p.exp
          | none => s.revoked } })

end TaskServerOAuth

end FreeSwarm.TaskKit
