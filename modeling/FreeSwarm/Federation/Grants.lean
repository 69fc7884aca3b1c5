import FreeSwarm.Foundation.Dict
import FreeSwarm.Foundation.Text
import Mathlib.Algebra.Order.Ring.Rat

/-!
# The grants of the gateway

Another computer asks the gateway for a pairing and receives a device code. The operator approves or
declines the request by its user code; an approved device code is redeemed for an access and a refresh
token, and a refresh token for the next pair. The gateway keeps the hashes of codes and tokens. A
handler that reads and writes does so at one moment: the clients are changed under the lock, and the
pending requests by a single thread, apart from the operator's answer.
-/

namespace FreeSwarm.Federation

open FreeSwarm.Foundation

abbrev Text := List Char

/-- A reading of the clock, in seconds. -/
abbrev Time := ℚ

def accessTtlS : Time := 3600
def refreshTtlS : Time := 30 * 24 * 3600
def deviceTtlS : Time := 600
def pollIntervalS : Time := 3
/-- `SCOPE`. -/
def inferenceScope : Text := "inference".toList
def appVersion : Text := "1.1.0".toList
def federationProtocol : Int := 1
def minFederationProtocol : Int := 1

/-- `version.compatible`: whether both computers speak a protocol that the other one accepts. A number
that is absent or zero stands for the first protocol, and for the peer's own. -/
def compatible (peerProtocol : Int) (peerMinProtocol : Option Int) : Bool :=
  let theirs := if peerProtocol = 0 then 1 else peerProtocol
  let theirMin := match peerMinProtocol with
    | some n => if n = 0 then theirs else n
    | none => theirs
  !(theirs < minFederationProtocol || federationProtocol < theirMin)

/-- The answer of the operator to a request. -/
inductive GrantStatus where
  | pending
  | approved
  | denied
  deriving DecidableEq

/-- A request for a pairing. -/
structure Grant where
  userCode : Text
  clientId : Text
  clientName : Text
  clientFp : Text
  addr : Text
  scope : Text
  clientVersion : Option Text
  created : Time
  expires : Time
  status : GrantStatus := .pending
  lastPoll : Time := 0
  deriving DecidableEq

/-- A computer that is paired with this one. -/
structure ClientRecord (Hash : Type) where
  name : Text
  addr : Text
  scope : Text
  created : Time
  lastSeen : Time
  clientFp : Text
  clientVersion : Option Text
  access : Dict Hash Time := .empty
  refresh : Option Hash := none
  refreshExp : Time := 0
  deriving DecidableEq

structure OauthError where
  error : Text
  errorDescription : Text
  status : Nat := 400
  deriving DecidableEq

structure Tokens where
  accessToken : Text
  refreshToken : Text
  tokenType : Text := "Bearer".toList
  expiresIn : Time := accessTtlS
  scope : Text := inferenceScope
  deriving DecidableEq

structure PairingRequest where
  clientId : Text
  clientName : Text
  scope : Text
  /-- `protocol`, where it is given. A text that is no number is refused with nothing done. -/
  protocol : Option Int
  /-- `min_protocol`, where it is given. -/
  minProtocol : Option Int
  clientFingerprint : Text
  appVersion : Text
  host : Option Text

structure PairingAnswer where
  deviceCode : Text
  userCode : Text
  verificationUri : Text
  expiresIn : Time := deviceTtlS
  interval : Time := pollIntervalS

/-- The text is the identity of a computer: 32 digits of a hexadecimal number. -/
def isNodeId (text : Text) : Bool :=
  text.length = 32 && text.all fun c => ('a' ≤ c && c ≤ 'f') || c.isDigit

/-- The record of a client with one more pair of tokens: the access tokens that expired are dropped, and
the refresh token of before is replaced. -/
def ClientRecord.issue {Hash : Type} [DecidableEq Hash] (c : ClientRecord Hash) (now : Time)
    (access refresh : Hash) : ClientRecord Hash :=
  { c with
    access := (c.access.filter fun _ exp => now < exp).set access (now + accessTtlS)
    refresh := some refresh
    refreshExp := now + refreshTtlS }

def ClientRecord.Holds {Hash : Type} [DecidableEq Hash] (h : Hash) (c : ClientRecord Hash) : Prop :=
  c.refresh = some h ∨ (c.access.get? h).isSome

instance ClientRecord.decidableHolds {Hash : Type} [DecidableEq Hash] (h : Hash) :
    DecidablePred (ClientRecord.Holds h) := fun _ => inferInstanceAs (Decidable (_ ∨ _))

/-- The record of a computer whose request is redeemed. -/
def Grant.client {Hash : Type} (grant : Grant) (now : Time) : ClientRecord Hash where
  name := grant.clientName
  addr := grant.addr
  scope := inferenceScope
  created := now
  lastSeen := now
  clientFp := grant.clientFp
  clientVersion := grant.clientVersion

def PairingRequest.grant (req : PairingRequest) (addr userCode : Text) (now : Time) : Grant where
  userCode := userCode
  clientId := req.clientId.take 64
  clientName := if req.clientName.take 80 = [] then "unknown computer".toList else req.clientName.take 80
  clientFp := req.clientFingerprint.take 120
  addr := addr
  scope := inferenceScope
  clientVersion := if req.appVersion.take 40 = [] then none else some (req.appVersion.take 40)
  created := now
  expires := now + deviceTtlS

/-- The description of the error for a computer that speaks another protocol, `me` being the name of
this one. -/
def unsupportedVersion (me clientName : Text) (theirs : Int) : Text :=
  let newer := if theirs < minFederationProtocol then "the requesting computer".toList else me
  me ++ " runs FreeSwarm ".toList ++ appVersion ++ " (federation protocol ".toList ++
    (toString federationProtocol).toList ++ ", accepts ".toList ++
    (toString minFederationProtocol).toList ++ "+); ".toList ++ clientName ++
    " speaks protocol ".toList ++ (toString theirs).toList ++ ". Update FreeSwarm on ".toList ++
    newer ++ ".".toList

/-- The pairings of this computer. -/
structure Grants (Hash : Type) where
  name : Text
  /-- `_pending`: the requests, by the hashes of their device codes. -/
  pending : Dict Hash Grant
  clients : Dict Text (ClientRecord Hash)
  deriving DecidableEq

namespace Grants
variable {Hash : Type} [DecidableEq Hash] (hash : Text → Hash) (upper : Text → Text) (g : Grants Hash)

def issue (clientId : Text) (c : ClientRecord Hash) (now : Time) (access refresh : Text) :
    Grants Hash :=
  { g with clients := g.clients.set clientId (c.issue now (hash access) (hash refresh)) }

/-- `_client_for_token`: the client that an access token authorises. -/
def clientForToken (token : Text) (now : Time) : Option Text :=
  (g.clients.find? fun _ c => now < (c.access.get? (hash token)).getD 0).map Prod.fst

def waiting (addr : Text) : Nat :=
  g.pending.entries.countP fun entry => entry.2.addr = addr ∧ entry.2.status = .pending

/-- The requests that expired are dropped. -/
def prune (now : Time) : Grants Hash :=
  { g with pending := g.pending.filter fun _ grant => ¬grant.expires < now }

/-- `device_authorization`: another computer asks for a pairing. The codes are generated. -/
def deviceAuthorization (req : PairingRequest) (now : Time) (deviceCode userCode : Text) :
    Except OauthError PairingAnswer × Grants Hash :=
  let addr := req.host.getD "?".toList
  let grant := req.grant addr userCode now
  let theirs := req.protocol.getD 1
  if !isNodeId grant.clientId then
    (.error ⟨"invalid_client".toList, "client_id must be the requesting node id".toList, 400⟩, g)
  else if req.scope ≠ [] ∧ req.scope ≠ inferenceScope then
    (.error ⟨"invalid_scope".toList, "only 'inference' is offered".toList, 400⟩, g)
  else if !compatible theirs req.minProtocol then
    (.error ⟨"unsupported_version".toList, unsupportedVersion g.name grant.clientName theirs, 400⟩, g)
  else
    let pruned := g.prune now
    if 3 ≤ pruned.waiting addr then
      (.error ⟨"slow_down".toList, "too many pending requests from this address".toList, 429⟩, pruned)
    else
      (.ok {
          deviceCode := deviceCode
          userCode := userCode
          verificationUri := "FreeSwarm on ".toList ++ g.name ++
            " > Network > Requests to use this computer".toList },
        { pruned with pending := pruned.pending.set (hash deviceCode) grant })

/-- The device grant of `token`: a device code is redeemed, if the operator approved it. -/
def deviceToken (clientId deviceCode : Text) (now : Time) (access refresh : Text) :
    Except OauthError Tokens × Grants Hash :=
  match g.pending.get? (hash deviceCode) with
  | none => (.error ⟨"invalid_grant".toList, "unknown device code".toList, 400⟩, g)
  | some grant =>
    let polled := { g with pending := g.pending.set (hash deviceCode) { grant with lastPoll := now } }
    if grant.clientId ≠ clientId then
      (.error ⟨"invalid_grant".toList, "unknown device code".toList, 400⟩, g)
    else if grant.expires < now then
      (.error ⟨"expired_token".toList, "the request expired -- start pairing again".toList, 400⟩, g)
    else if now - grant.lastPoll < pollIntervalS - 1 / 2 then
      (.error ⟨"slow_down".toList, "poll no faster than the interval".toList, 400⟩, polled)
    else
      match grant.status with
      | .denied =>
        (.error ⟨"access_denied".toList,
          "the operator of this computer declined the request".toList, 400⟩, polled)
      | .pending =>
        (.error ⟨"authorization_pending".toList,
          "waiting for approval on this computer's console".toList, 400⟩, polled)
      | .approved =>
        (.ok { accessToken := access, refreshToken := refresh },
          issue hash { g with pending := g.pending.pop (hash deviceCode) } clientId (grant.client now)
            now access refresh)

/-- The refresh grant of `token`: a refresh token is redeemed for the next pair. -/
def refreshToken (clientId token : Text) (now : Time) (access refresh : Text) :
    Except OauthError Tokens × Grants Hash :=
  match g.clients.find? fun _ c => c.refresh = some (hash token) with
  | none =>
    (.error ⟨"invalid_grant".toList, "refresh token unknown, revoked or expired".toList, 400⟩, g)
  | some (cid, c) =>
    if cid ≠ clientId ∨ c.refreshExp < now then
      (.error ⟨"invalid_grant".toList, "refresh token unknown, revoked or expired".toList, 400⟩, g)
    else
      (.ok { accessToken := access, refreshToken := refresh },
        g.issue hash cid { c with lastSeen := now } now access refresh)

/-- `revoke`: the clients that hold a token are taken out. -/
def revoke (token : Text) : Grants Hash :=
  { g with clients := g.clients.filter fun _ c => ¬c.Holds (hash token) }

/-- `revoke_client`: the operator takes a client out. -/
def revokeClient (clientId : Text) : Grants Hash := { g with clients := g.clients.pop clientId }

/-- The first request with a user code that waits for an answer, with the hash of its device code. -/
def asked (userCode : Text) : Option (Hash × Grant) :=
  g.pending.find? fun _ grant => grant.userCode = upper userCode ∧ grant.status = .pending

/-- `decide`: the operator answers a request. What is not found has the status 404. -/
protected def decide (userCode : Text) (approve : Bool) : Except Text Unit × Grants Hash :=
  match g.asked upper userCode with
  | none => (.error "no pending request with that code (it may have expired)".toList, g)
  | some (code, grant) =>
    (.ok (), { g with
      pending := g.pending.set code { grant with
        status := if approve then .approved else .denied } })

/-! ## What the requests can do -/

theorem deviceAuthorization_cases (req : PairingRequest) (now : Time) (deviceCode userCode : Text) :
    (∃ e, g.deviceAuthorization hash req now deviceCode userCode = (.error e, g)) ∨
    (∃ e, g.deviceAuthorization hash req now deviceCode userCode = (.error e, g.prune now)) ∨
    ∃ a addr, g.deviceAuthorization hash req now deviceCode userCode = (.ok a, { g with
      pending := (g.prune now).pending.set (hash deviceCode) (req.grant addr userCode now) }) := by
  simp only [deviceAuthorization]
  split_ifs
  · exact .inl ⟨_, rfl⟩
  · exact .inl ⟨_, rfl⟩
  · exact .inl ⟨_, rfl⟩
  · exact .inr (.inl ⟨_, rfl⟩)
  · exact .inr (.inr ⟨_, _, rfl⟩)

theorem deviceToken_cases (clientId deviceCode : Text) (now : Time) (access refresh : Text) :
    (∃ e, g.deviceToken hash clientId deviceCode now access refresh = (.error e, g)) ∨
    ∃ grant, g.pending.get? (hash deviceCode) = some grant ∧
      ((∃ e, g.deviceToken hash clientId deviceCode now access refresh = (.error e, { g with
          pending := g.pending.set (hash deviceCode) { grant with lastPoll := now } })) ∨
        grant.clientId = clientId ∧ now ≤ grant.expires ∧ grant.status = .approved ∧
          g.deviceToken hash clientId deviceCode now access refresh =
            (.ok { accessToken := access, refreshToken := refresh },
              issue hash { g with pending := g.pending.pop (hash deviceCode) } clientId
                (grant.client now) now access refresh)) := by
  simp only [deviceToken]
  cases found : g.pending.get? (hash deviceCode) with
  | none => exact .inl ⟨_, rfl⟩
  | some grant =>
    dsimp only
    split_ifs with other expired fast
    · exact .inl ⟨_, rfl⟩
    · exact .inl ⟨_, rfl⟩
    · exact .inr ⟨grant, rfl, .inl ⟨_, rfl⟩⟩
    · split
      · exact .inr ⟨grant, rfl, .inl ⟨_, rfl⟩⟩
      · exact .inr ⟨grant, rfl, .inl ⟨_, rfl⟩⟩
      · rename_i status
        exact .inr ⟨grant, rfl, .inr ⟨not_not.mp other, not_lt.mp expired, status, rfl⟩⟩

theorem refreshToken_cases (clientId token : Text) (now : Time) (access refresh : Text) :
    g.refreshToken hash clientId token now access refresh =
      (.error ⟨"invalid_grant".toList, "refresh token unknown, revoked or expired".toList, 400⟩, g) ∨
    ∃ c, g.clients.get? clientId = some c ∧ c.refresh = some (hash token) ∧ now ≤ c.refreshExp ∧
      g.refreshToken hash clientId token now access refresh =
        (.ok { accessToken := access, refreshToken := refresh },
          g.issue hash clientId { c with lastSeen := now } now access refresh) := by
  simp only [refreshToken]
  cases found : g.clients.find? fun _ c => c.refresh = some (hash token) with
  | none => exact .inl rfl
  | some entry =>
    obtain ⟨cid, c⟩ := entry
    obtain ⟨here, holds⟩ := Dict.find?_eq_some found
    dsimp only
    split_ifs with refused
    · exact .inl rfl
    · obtain ⟨same, unexpired⟩ := not_or.mp refused
      obtain rfl := not_not.mp same
      exact .inr ⟨c, here, holds, not_lt.mp unexpired, rfl⟩

theorem refreshToken_taken {clientId token : Text} {now : Time} {c : ClientRecord Hash}
    (found : g.clients.get? clientId = some c) (holds : c.refresh = some (hash token))
    (unexpired : now ≤ c.refreshExp) (own : ∀ client c', g.clients.get? client = some c' →
      c'.refresh = some (hash token) → client = clientId) (access refresh : Text) :
    g.refreshToken hash clientId token now access refresh =
      (.ok { accessToken := access, refreshToken := refresh },
        g.issue hash clientId { c with lastSeen := now } now access refresh) := by
  rw [refreshToken]
  cases first : g.clients.find? fun _ c => c.refresh = some (hash token) with
  | none => exact absurd holds (Dict.find?_eq_none.mp first clientId c found)
  | some entry =>
    obtain ⟨cid, c'⟩ := entry
    obtain ⟨here, holds'⟩ := Dict.find?_eq_some first
    obtain rfl := own cid c' here holds'
    rw [found] at here
    cases here
    exact if_neg fun refused => refused.elim (fun other => other rfl) (not_lt.mpr unexpired)

theorem decide_cases (userCode : Text) (approve : Bool) :
    (g.asked upper userCode = none ∧ (g.decide upper userCode approve).2 = g) ∨
    ∃ code grant, g.asked upper userCode = some (code, grant) ∧ g.pending.get? code = some grant ∧
      grant.status = .pending ∧ (g.decide upper userCode approve).2 = { g with
        pending := g.pending.set code { grant with
          status := if approve then .approved else .denied } } := by
  rw [Grants.decide]
  cases found : g.asked upper userCode with
  | none => exact .inl ⟨rfl, rfl⟩
  | some entry =>
    obtain ⟨code, grant⟩ := entry
    obtain ⟨here, -, waits⟩ := Dict.find?_eq_some found
    exact .inr ⟨code, grant, rfl, here, waits, rfl⟩

end Grants

end FreeSwarm.Federation
