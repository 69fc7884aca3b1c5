import FreeSwarm.Federation.Grants
import FreeSwarm.Foundation.FairRun
import Mathlib.Logic.Function.Basic

/-!
# Fresh tokens for the calls to another computer

Each call to a peer begins with an access token that is still valid for a while. One that is about to
expire is renewed with the stored refresh token, which the gateway of the peer takes once. Nothing keeps
two calls apart: each reads the stored pair, waits for the answer of the peer, and stores the pair it
received, or marks the peer as revoked.
-/

namespace FreeSwarm.Federation

open FreeSwarm.Foundation

structure PeerRecord where
  accessToken : Text
  refreshToken : Text
  accessExp : Time
  deriving DecidableEq

/-- Where a caller of `_fresh_token` is. -/
inductive Call where
  | idle
  | waiting (token : Text)
  | answered (answer : Except OauthError Tokens)
  | returned (token : Option Text)
  | failed
  deriving DecidableEq

/-- The caller does not wait for a token. -/
def Call.Finished : Call → Prop
  | .waiting _ | .answered _ => False
  | _ => True

/-- This computer and one peer. -/
structure Link (Caller Hash : Type) where
  me : Text
  peer : Option PeerRecord
  marked : Option Text
  calls : Caller → Call
  server : Grants Hash
  revoked : Bool
  issued : List Tokens

/-- What happens between the computers. -/
inductive LinkEvent (Caller : Type) where
  | ask (caller : Caller) (now : Time)
  | handle (caller : Caller) (now : Time) (access refresh : Text)
  | refuse (caller : Caller) (e : OauthError)
  | receive (caller : Caller) (now : Time)
  | lose (caller : Caller)
  | revokeClient

/-- The stored tokens are those of a pair. -/
def PeerRecord.Holds (p : PeerRecord) (t : Tokens) : Prop :=
  p.accessToken = t.accessToken ∧ p.refreshToken = t.refreshToken

/-- The stored pair after an answer. -/
def PeerRecord.update (p : PeerRecord) (t : Tokens) (now : Time) : PeerRecord :=
  { p with
    accessToken := t.accessToken
    refreshToken := t.refreshToken
    accessExp := now + t.expiresIn }

namespace Link
variable {Caller Hash : Type} [DecidableEq Caller] [DecidableEq Hash] (hash : Text → Hash)
  (l : Link Caller Hash)

variable (caller : Caller)

def goes (call : Call) : Caller → Call := Function.update l.calls caller call

/-- `_fresh_token` up to the request: a token that is valid for two more minutes is taken as it is. -/
def ask (now : Time) : Link Caller Hash :=
  match l.peer with
  | none => { l with calls := l.goes caller (.returned none) }
  | some p =>
    if 120 < p.accessExp - now then { l with calls := l.goes caller (.returned (some p.accessToken)) }
    else { l with calls := l.goes caller (.waiting p.refreshToken) }

def handle (token : Text) (now : Time) (access refresh : Text) : Link Caller Hash :=
  match l.server.refreshToken hash l.me token now access refresh with
  | (.ok t, server) =>
    { l with server := server, issued := t :: l.issued, calls := l.goes caller (.answered (.ok t)) }
  | (.error e, server) =>
    { l with server := server, calls := l.goes caller (.answered (.error e)) }

/-- `_fresh_token` behind the request: a pair is stored if the peer still is, and any error marks the
peer as revoked. -/
def receive (answer : Except OauthError Tokens) (now : Time) : Link Caller Hash :=
  match answer with
  | .ok t =>
    { l with
      peer := l.peer.map fun p => p.update t now
      calls := l.goes caller (.returned (some t.accessToken)) }
  | .error e =>
    { l with marked := some e.errorDescription, calls := l.goes caller (.returned none) }

/-- What happens between the computers. -/
def step : LinkEvent Caller → Option (Link Caller Hash)
  | .ask caller now =>
    match l.calls caller with
    | .waiting _ | .answered _ => none
    | _ => some (l.ask caller now)
  | .handle caller now access refresh =>
    match l.calls caller with
    | .waiting token => some (l.handle hash caller token now access refresh)
    | _ => none
  | .refuse caller e =>
    match l.calls caller with
    | .waiting _ => some { l with calls := l.goes caller (.answered (.error e)) }
    | _ => none
  | .receive caller now =>
    match l.calls caller with
    | .answered answer => some (l.receive caller answer now)
    | _ => none
  | .lose caller =>
    match l.calls caller with
    | .waiting _ | .answered _ => some { l with calls := l.goes caller .failed }
    | _ => none
  | .revokeClient => some { l with server := l.server.revokeClient l.me, revoked := true }

/-- The refresh token that is generated has a hash that no pair and no other client has. -/
def Generated (l : Link Caller Hash) : LinkEvent Caller → Prop
  | .handle _ _ _ refresh =>
    (∀ t ∈ l.issued, hash t.refreshToken ≠ hash refresh) ∧
      ∀ client c, l.server.clients.get? client = some c → c.refresh ≠ some (hash refresh)
  | _ => True

/-- The peer takes the refresh token of a request: it is the current one, and did not expire. -/
def Takes (token : Text) (now : Time) : Prop :=
  ∃ c, l.server.clients.get? l.me = some c ∧ c.refresh = some (hash token) ∧ now ≤ c.refreshExp

/-- Unless the operator revoked the access, a request is handled only while its refresh token is the
current one, and not refused otherwise. No pair of tokens is lost on its way. -/
def Current (l : Link Caller Hash) : LinkEvent Caller → Prop
  | .handle caller now _ _ =>
    l.revoked = false → ∀ token, l.calls caller = .waiting token → l.Takes hash token now
  | .refuse _ _ => l.revoked = true
  | .lose caller => ∀ t, l.calls caller ≠ .answered (.ok t)
  | _ => True

/-- The peer is marked as revoked only if it revoked the access, and the stored tokens are the latest
ones whenever no caller waits for any. -/
structure InOrder (l : Link Caller Hash) : Prop where
  unmarked : l.revoked = false → l.marked = none
  stores : (∀ caller, (l.calls caller).Finished) →
    ∃ t earlier, l.issued = t :: earlier ∧ ∀ p ∈ l.peer, p.Holds t

/-- A connection that nobody used yet. -/
structure Starts (l : Link Caller Hash) : Prop where
  idle : ∀ caller, l.calls caller = .idle
  access : l.revoked = false
  unmarked : l.marked = none
  paired : ∃ t c, l.issued = [t] ∧ (∀ p ∈ l.peer, p.Holds t) ∧
    l.server.clients.get? l.me = some c ∧ c.refresh = some (hash t.refreshToken) ∧
    ∀ client c', l.server.clients.get? client = some c' →
      c'.refresh = some (hash t.refreshToken) → client = l.me

end Link

/-! ## Where the latest pair is -/

section

variable {Caller Hash : Type} [DecidableEq Caller] [DecidableEq Hash] {hash : Text → Hash}

/-- The latest pair is stored, or on its way to one caller, while the requests and the stored tokens are
those of earlier pairs. -/
inductive Stored (peer : Option PeerRecord) (calls : Caller → Call) (t : Tokens)
    (earlier : List Tokens) : Prop
  | settled (stores : ∀ p ∈ peer, p.Holds t) (unanswered : ∀ caller t', calls caller ≠ .answered (.ok t'))
      (waiting : ∀ caller token, calls caller = .waiting token →
        ∃ t' ∈ t :: earlier, t'.refreshToken = token)
  | pending (caller : Caller) (answered : calls caller = .answered (.ok t))
      (only : ∀ other t', calls other = .answered (.ok t') → other = caller)
      (stores : ∀ p ∈ peer, ∃ t' ∈ earlier, p.Holds t')
      (waiting : ∀ other token, calls other = .waiting token →
        ∃ t' ∈ earlier, t'.refreshToken = token)

/-- The peer knows this computer by the refresh token of the latest pair, unless it revoked the
access. -/
structure Served (hash : Text → Hash) (me : Text) (server : Grants Hash) (revoked : Bool)
    (t : Tokens) : Prop where
  held : revoked = false → ∃ c, server.clients.get? me = some c ∧ c.refresh = some (hash t.refreshToken)
  gone : revoked = true → server.clients.get? me = none
  own : ∀ client c, server.clients.get? client = some c →
    c.refresh = some (hash t.refreshToken) → client = me

omit [DecidableEq Hash] in
theorem update_cases {calls : Caller → Call} {caller other : Caller} {call call' : Call}
    (here : Function.update calls caller call other = call') :
    other = caller ∧ call = call' ∨ other ≠ caller ∧ calls other = call' := by
  by_cases own : other = caller
  · rw [own, Function.update_self] at here
    exact .inl ⟨own, here⟩
  · rw [Function.update_of_ne own] at here
    exact .inr ⟨own, here⟩

omit [DecidableEq Hash] in
theorem Stored.goes {peer : Option PeerRecord} {calls : Caller → Call} {t : Tokens}
    {earlier : List Tokens} (stored : Stored peer calls t earlier) {caller : Caller} {call : Call}
    (before : ∀ t', calls caller ≠ .answered (.ok t')) (after : ∀ t', call ≠ .answered (.ok t'))
    (reads : ∀ token, call = .waiting token → ∃ p ∈ peer, p.refreshToken = token) :
    Stored peer (Function.update calls caller call) t earlier := by
  have answers : ∀ other t', Function.update calls caller call other = .answered (.ok t') →
      calls other = .answered (.ok t') := by
    intro other t' here
    cases update_cases here with
    | inl own => exact absurd own.2 (after t')
    | inr apart => exact apart.2
  cases stored with
  | settled stores unanswered waiting =>
    refine .settled stores (fun other t' here => unanswered other t' (answers other t' here))
      fun other token here => ?_
    cases update_cases here with
    | inl own =>
      obtain ⟨p, mem, same⟩ := reads token own.2
      exact ⟨t, List.mem_cons_self, (stores p mem).2.symm.trans same⟩
    | inr apart => exact waiting other token apart.2
  | pending k answered only stores waiting =>
    have apart : k ≠ caller := by
      rintro rfl
      exact before t answered
    refine .pending k ?_ (fun other t' here => only other t' (answers other t' here)) stores
      fun other token here => ?_
    · rw [Function.update_of_ne apart]
      exact answered
    · cases update_cases here with
      | inl own =>
        obtain ⟨p, mem, same⟩ := reads token own.2
        obtain ⟨t', old, holds⟩ := stores p mem
        exact ⟨t', old, holds.2.symm.trans same⟩
      | inr apart => exact waiting other token apart.2

end

namespace Link
variable {Caller Hash : Type} [DecidableEq Caller] [DecidableEq Hash] {hash : Text → Hash}
  {l l' : Link Caller Hash}

/-- The connection while requests are only handled with the current token. -/
structure Kept (hash : Text → Hash) (l : Link Caller Hash) : Prop where
  unmarked : l.revoked = false → l.marked = none ∧ ∀ caller e, l.calls caller ≠ .answered (.error e)
  fresh : (l.issued.map fun t => hash t.refreshToken).Nodup
  latest : ∃ t earlier, l.issued = t :: earlier ∧ Stored l.peer l.calls t earlier ∧
    Served hash l.me l.server l.revoked t

omit [DecidableEq Hash] in
/-- A caller takes the stored token, none, or sends a request with the stored refresh token. -/
theorem ask_eq (l : Link Caller Hash) (caller : Caller) (now : Time) :
    ∃ call, l.ask caller now = { l with calls := l.goes caller call } ∧
      (∀ answer, call ≠ .answered answer) ∧
      ∀ token, call = .waiting token → ∃ p ∈ l.peer, p.refreshToken = token := by
  rw [Link.ask]
  cases l.peer with
  | none => exact ⟨.returned none, rfl, fun _ => nofun, fun _ => nofun⟩
  | some p =>
    dsimp only
    split
    · exact ⟨.returned (some p.accessToken), rfl, fun _ => nofun, fun _ => nofun⟩
    · exact ⟨.waiting p.refreshToken, rfl, fun _ => nofun,
        fun token same => ⟨p, rfl, Call.waiting.inj same⟩⟩

variable {caller : Caller}

omit [DecidableEq Hash] in
theorem Kept.goes (kept : l.Kept hash) {call : Call}
    (before : ∀ t, l.calls caller ≠ .answered (.ok t)) (after : ∀ t, call ≠ .answered (.ok t))
    (errors : ∀ e, call = .answered (.error e) → l.revoked = true)
    (reads : ∀ token, call = .waiting token → ∃ p ∈ l.peer, p.refreshToken = token) :
    Kept hash { l with calls := l.goes caller call } := by
  obtain ⟨t, earlier, issued, stored, served⟩ := kept.latest
  refine ⟨fun access => ⟨(kept.unmarked access).1, fun other e here => ?_⟩, kept.fresh, t, earlier,
    issued, stored.goes before after reads, served⟩
  cases update_cases here with
  | inl own =>
    have gone := errors e own.2
    rw [show l.revoked = false from access] at gone
    cases gone
  | inr apart => exact (kept.unmarked access).2 other e apart.2

theorem Kept.handle (kept : l.Kept hash) {token : Text}
    (waits : l.calls caller = .waiting token) {now : Time} (access refresh : Text)
    (takes : l.revoked = false → l.Takes hash token now)
    (unused : ∀ t ∈ l.issued, hash t.refreshToken ≠ hash refresh)
    (others : ∀ client c, l.server.clients.get? client = some c → c.refresh ≠ some (hash refresh)) :
    (l.handle hash caller token now access refresh).Kept hash := by
  obtain ⟨t, earlier, issued, stored, served⟩ := kept.latest
  have before : ∀ t', l.calls caller ≠ .answered (.ok t') := by
    rw [waits]
    exact fun _ => nofun
  cases access_ : l.revoked with
  | true =>
    -- the peer has no record of this computer any more
    have refused : ∃ e, l.server.refreshToken hash l.me token now access refresh = (.error e, l.server) := by
      obtain same | ⟨c, found, -⟩ :=
        l.server.refreshToken_cases hash l.me token now access refresh
      · exact ⟨_, same⟩
      · rw [served.gone access_] at found
        cases found
    obtain ⟨e, same⟩ := refused
    rw [Link.handle, same]
    exact kept.goes before (fun _ => nofun) (fun _ _ => access_) (fun _ => nofun)
  | false =>
    obtain ⟨c, found, holds, unexpired⟩ := takes access_
    obtain ⟨c', found', current⟩ := served.held access_
    rw [found] at found'
    obtain rfl := Option.some.inj found'
    have latest : hash token = hash t.refreshToken := Option.some.inj (holds.symm.trans current)
    have own : ∀ client c', l.server.clients.get? client = some c' →
        c'.refresh = some (hash token) → client = l.me := by
      rw [latest]
      exact served.own
    have taken := l.server.refreshToken_taken hash found holds unexpired own access refresh
    cases stored with
    | pending k answered only stores waiting =>
      -- a request that was sent before has the token of an earlier pair
      obtain ⟨t', old, same⟩ := waiting caller token waits
      have fresh := kept.fresh
      rw [issued, List.map_cons, List.nodup_cons] at fresh
      refine absurd (List.mem_map.mpr ⟨t', old, ?_⟩) fresh.1
      rw [same, latest]
    | settled stores unanswered waiting =>
      rw [Link.handle, taken]
      let t' : Tokens := { accessToken := access, refreshToken := refresh }
      refine ⟨fun access_ => ⟨(kept.unmarked access_).1, fun other e here => ?_⟩, ?_, t', l.issued, rfl,
        .pending caller (Function.update_self _ _ _) (fun other t'' here => ?_) (fun p mem => ?_)
          fun other token' here => ?_, ?_⟩
      · cases update_cases here with
        | inl own => cases own.2
        | inr apart => exact (kept.unmarked access_).2 other e apart.2
      · rw [List.map_cons, List.nodup_cons]
        refine ⟨fun mem => ?_, kept.fresh⟩
        obtain ⟨t'', old, same⟩ := List.mem_map.mp mem
        exact unused t'' old same
      · cases update_cases here with
        | inl own => exact own.1
        | inr apart => exact absurd apart.2 (unanswered other t'')
      · rw [issued]
        exact ⟨t, List.mem_cons_self, stores p mem⟩
      · rw [issued]
        cases update_cases here with
        | inl own => cases own.2
        | inr apart => exact waiting other token' apart.2
      · refine ⟨fun _ => ⟨_, Dict.get?_set_self, rfl⟩, fun gone => ?_, fun client c' found' holds' => ?_⟩
        · rw [show l.revoked = true from gone] at access_
          cases access_
        · by_contra other
          have before : l.server.clients.get? client = some c' := by
            rw [← found']
            exact (Dict.get?_set_of_ne other).symm
          exact others client c' before holds'

omit [DecidableEq Hash] in
theorem Kept.receive (kept : l.Kept hash) {answer : Except OauthError Tokens}
    (answered : l.calls caller = .answered answer) (now : Time) :
    (l.receive caller answer now).Kept hash := by
  obtain ⟨t, earlier, issued, stored, served⟩ := kept.latest
  cases answer with
  | error e =>
    have before : ∀ t', l.calls caller ≠ .answered (.ok t') := by
      rw [answered]
      intro t' same
      cases Call.answered.inj same
    have gone : l.revoked = true := by
      cases access : l.revoked with
      | true => rfl
      | false => exact absurd answered ((kept.unmarked access).2 caller e)
    refine ⟨fun access => ?_, kept.fresh, t, earlier, issued,
      stored.goes before (fun _ => nofun) (fun _ => nofun), served⟩
    rw [show l.revoked = false from access] at gone
    cases gone
  | ok t' =>
    cases stored with
    | settled stores unanswered waiting => exact absurd answered (unanswered caller t')
    | pending k answered' only stores waiting =>
      obtain rfl := only caller t' answered
      rw [answered] at answered'
      obtain rfl := Except.ok.inj (Call.answered.inj answered')
      refine ⟨fun access => ⟨(kept.unmarked access).1, fun other e here => ?_⟩, kept.fresh, t', earlier,
        issued, .settled (fun p mem => ?_) (fun other t'' here => ?_) fun other token here => ?_, served⟩
      · cases update_cases here with
        | inl own => cases own.2
        | inr apart => exact (kept.unmarked access).2 other e apart.2
      · obtain ⟨p', -, rfl⟩ := Option.map_eq_some_iff.mp mem
        exact ⟨rfl, rfl⟩
      · cases update_cases here with
        | inl own => cases own.2
        | inr apart => exact apart.1 (only other t'' apart.2)
      · cases update_cases here with
        | inl own => cases own.2
        | inr apart =>
          obtain ⟨t'', old, same⟩ := waiting other token apart.2
          exact ⟨t'', List.mem_cons_of_mem _ old, same⟩

omit [DecidableEq Caller] [DecidableEq Hash] in
theorem Kept.revokeClient (kept : l.Kept hash) :
    Kept hash { l with server := l.server.revokeClient l.me, revoked := true } := by
  obtain ⟨t, earlier, issued, stored, served⟩ := kept.latest
  refine ⟨nofun, kept.fresh, t, earlier, issued, stored, nofun, fun _ => ?_, fun client c found holds => ?_⟩
  · cases found : (l.server.revokeClient l.me).clients.get? l.me with
    | none => rfl
    | some c => exact absurd rfl (Dict.get?_pop_eq_some.mp found).2
  · exact served.own client c (Dict.get?_pop_eq_some.mp found).1 holds

theorem Kept.step (kept : l.Kept hash) {ev : LinkEvent Caller} (generated : l.Generated hash ev)
    (current : l.Current hash ev) (taken : l.step hash ev = some l') : l'.Kept hash := by
  cases ev with
  | ask caller now =>
    rw [Link.step] at taken
    obtain ⟨call, same, unanswered, reads⟩ := l.ask_eq caller now
    cases phase : l.calls caller with
    | waiting token =>
      rw [phase] at taken
      cases taken
    | answered answer =>
      rw [phase] at taken
      cases taken
    | _ =>
      rw [phase] at taken
      rw [← Option.some.inj taken, same]
      apply kept.goes _ (fun _ => unanswered _) (fun _ here => absurd here (unanswered _)) reads
      rw [phase]
      exact fun _ => nofun
  | handle caller now access refresh =>
    rw [Link.step] at taken
    cases phase : l.calls caller with
    | waiting token =>
      rw [phase] at taken
      cases taken
      exact kept.handle phase access refresh (fun open_ => current open_ token phase) generated.1
        generated.2
    | _ =>
      rw [phase] at taken
      cases taken
  | refuse caller e =>
    rw [Link.step] at taken
    cases phase : l.calls caller with
    | waiting token =>
      rw [phase] at taken
      cases taken
      apply kept.goes
      · rw [phase]
        exact fun _ => nofun
      · exact fun _ => nofun
      · exact fun _ _ => current
      · exact fun _ => nofun
    | _ =>
      rw [phase] at taken
      cases taken
  | receive caller now =>
    rw [Link.step] at taken
    cases phase : l.calls caller with
    | answered answer =>
      rw [phase] at taken
      cases taken
      exact kept.receive phase now
    | _ =>
      rw [phase] at taken
      cases taken
  | lose caller =>
    rw [Link.step] at taken
    have failed : Kept hash { l with calls := l.goes caller .failed } := by
      apply kept.goes current
      · exact fun _ => nofun
      · exact fun _ => nofun
      · exact fun _ => nofun
    cases phase : l.calls caller with
    | waiting token | answered answer =>
      rw [phase] at taken
      exact Option.some.inj taken ▸ failed
    | _ =>
      rw [phase] at taken
      cases taken
  | revokeClient =>
    cases taken
    exact kept.revokeClient

omit [DecidableEq Caller] [DecidableEq Hash] in
theorem Kept.inOrder (kept : l.Kept hash) : l.InOrder where
  unmarked access := (kept.unmarked access).1
  stores finished := by
    obtain ⟨t, earlier, issued, stored, -⟩ := kept.latest
    cases stored with
    | settled stores => exact ⟨t, earlier, issued, stores⟩
    | pending k answered =>
      have := finished k
      rw [answered] at this
      exact this.elim

omit [DecidableEq Caller] [DecidableEq Hash] in
theorem Starts.kept (starts : l.Starts hash) : l.Kept hash := by
  obtain ⟨t, c, issued, stores, found, holds, own⟩ := starts.paired
  refine ⟨fun _ => ⟨starts.unmarked, fun caller e here => ?_⟩, ?_, t, [], issued,
    .settled stores (fun caller t' here => ?_) fun caller token here => ?_,
    fun _ => ⟨c, found, holds⟩, fun gone => ?_, own⟩
  · rw [starts.idle] at here
    cases here
  · rw [issued]
    exact List.nodup_singleton _
  · rw [starts.idle] at here
    cases here
  · rw [starts.idle] at here
    cases here
  · rw [starts.access] at gone
    cases gone

/-- In every run in which requests are handled only while their refresh token is the current one, and no
pair is lost on its way, the peer is marked only after it revoked the access, and the stored tokens are
the latest ones whenever nobody waits. -/
theorem inOrder_of_current (run : Run (step hash : Link Caller Hash → _ → _) Always)
    (starts : (run.states 0).Starts hash)
    (generated : ∀ n ev, run.events n = some ev → (run.states n).Generated hash ev)
    (current : ∀ n ev, run.events n = some ev → (run.states n).Current hash ev) (n : Nat) :
    (run.states n).InOrder := by
  let both : Link Caller Hash → LinkEvent Caller → Prop :=
    fun l ev => l.Generated hash ev ∧ l.Current hash ev
  have meets : ∀ n ev, run.events n = some ev → both (run.states n) ev :=
    fun n ev event => ⟨generated n ev event, current n ev event⟩
  exact (((run.restrict meets).reaches n).invariant (Kept hash) starts.kept
    fun _ _ _ kept meets taken => kept.step meets.1 meets.2 taken).inOrder

/-- What the peer keeps of this computer with a refresh token. -/
def laptopRecord (access : Dict Text Time) (lastSeen : Time) (refresh : Text) (refreshExp : Time) :
    ClientRecord Text where
  name := "laptop".toList
  addr := "10.0.0.2".toList
  scope := inferenceScope
  created := 0
  lastSeen := lastSeen
  clientFp := "ab:cd".toList
  clientVersion := some appVersion
  access := access
  refresh := some refresh
  refreshExp := refreshExp

def firstPair : Tokens := { accessToken := "a0".toList, refreshToken := "r0".toList }

def secondPair : Tokens := { accessToken := "a1".toList, refreshToken := "r1".toList }

/-- The pairings of the peer after the first pair. -/
def firstServer : Grants Text :=
  ⟨"desktop".toList, .empty, Dict.empty.set "laptop".toList
    (laptopRecord (Dict.empty.set "a0".toList 3600) 0 "r0".toList 2592000)⟩

/-- Its pairings after the second pair. -/
def secondServer : Grants Text :=
  ⟨"desktop".toList, .empty, Dict.empty.set "laptop".toList
    (laptopRecord ((Dict.empty.set "a0".toList 3600).set "a1".toList 7100) 3500 "r1".toList 2595500)⟩

/-- The first pair is stored, and about to expire. -/
def expiring : Link Nat Text where
  me := "laptop".toList
  peer := some ⟨"a0".toList, "r0".toList, 3600⟩
  marked := none
  calls := fun _ => .idle
  server := firstServer
  revoked := false
  issued := [firstPair]

theorem expiring_starts : expiring.Starts id where
  idle _ := rfl
  access := rfl
  unmarked := rfl
  paired := by
    refine ⟨firstPair, _, rfl, fun p mem => ?_, rfl, rfl, fun client c found _ => ?_⟩
    · rw [← Option.some.inj mem]
      exact ⟨rfl, rfl⟩
    · by_contra other
      have none_ : firstServer.clients.get? client = none := Dict.get?_set_of_ne other
      rw [show expiring.server = firstServer from rfl, none_] at found
      cases found

def asked : Link Nat Text :=
  { expiring with calls := expiring.goes 0 (.waiting "r0".toList) }

def handled : Link Nat Text :=
  { asked with
    calls := asked.goes 0 (.answered (.ok secondPair))
    server := secondServer
    issued := [secondPair, firstPair] }

/-- The second pair is stored. -/
def renewed : Link Nat Text :=
  { handled with
    peer := some ⟨"a1".toList, "r1".toList, 7110⟩
    calls := handled.goes 0 (.returned (some "a1".toList)) }

theorem renewed_runs : [.ask 0 3490, .handle 0 3500 "a1".toList "r1".toList, .receive 0 3510].foldlM
    (step id) expiring = some renewed := by
  with_unfolding_all rfl

def renewal : Run (step id : Link Nat Text → _ → _) Always := .ofEvents _ expiring renewed renewed_runs

theorem renewal_inOrder : (renewal.states 3).InOrder := by
  have first : renewal.states 1 = asked := by with_unfolding_all rfl
  have only : ∀ client c, asked.server.clients.get? client = some c → c.refresh = some "r0".toList := by
    intro client c found
    by_cases own : client = "laptop".toList
    · rw [own] at found
      rw [← Option.some.inj (show some _ = some c from found)]
      rfl
    · cases (show firstServer.clients.get? client = none from Dict.get?_set_of_ne own).symm.trans found
  refine inOrder_of_current renewal expiring_starts ?_ ?_ 3
  · intro n ev event
    have inside := (List.getElem?_eq_some_iff.mp event).1
    match n with
    | 0 | 2 =>
      rw [← Option.some.inj event]
      trivial
    | 1 =>
      rw [← Option.some.inj event, first]
      refine ⟨fun t mem => ?_, fun client c found => ?_⟩
      · obtain rfl := List.mem_singleton.mp mem
        decide
      · rw [only client c found]
        decide
    | n + 3 => exact absurd inside (by simp)
  · intro n ev event
    have inside := (List.getElem?_eq_some_iff.mp event).1
    match n with
    | 0 | 2 =>
      rw [← Option.some.inj event]
      trivial
    | 1 =>
      rw [← Option.some.inj event, first]
      intro _ token waits
      obtain rfl := Call.waiting.inj ((show asked.calls 0 = .waiting "r0".toList from rfl).symm.trans waits)
      exact ⟨_, rfl, rfl, by decide⟩
    | n + 3 => exact absurd inside (by simp)

/-- A second caller asked before the first one stored the pair, and is refused. -/
def contested : Link Nat Text :=
  { renewed with
    marked := some "refresh token unknown, revoked or expired".toList
    calls := Function.update (Function.update (Function.update (Function.update (Function.update
      asked.calls 1 (.waiting "r0".toList)) 0 (.answered (.ok secondPair))) 1
        (.answered (.error ⟨"invalid_grant".toList,
          "refresh token unknown, revoked or expired".toList, 400⟩))) 0
            (.returned (some "a1".toList))) 1 (.returned none) }

theorem contested_runs : [.ask 0 3490, .ask 1 3490, .handle 0 3500 "a1".toList "r1".toList,
    .handle 1 3500 "a2".toList "r2".toList, .receive 0 3510, .receive 1 3510].foldlM
    (step id) expiring = some contested := by
  with_unfolding_all rfl

def lostPair : Link Nat Text := { handled with calls := handled.goes 0 .failed }

theorem lostPair_runs : [.ask 0 3490, .handle 0 3500 "a1".toList "r1".toList, .lose 0].foldlM
    (step id) expiring = some lostPair := by
  with_unfolding_all rfl

/-- The later one of two callers marks the peer as revoked, and a lost answer leaves a refresh token that
the peer does not take any more. -/
theorem contested_marks : (¬∀ n, ((Run.ofEvents _ _ _ contested_runs).states n).InOrder) ∧
    ¬∀ n, ((Run.ofEvents _ _ _ lostPair_runs).states n).InOrder := by
  constructor
  · intro all
    have last := (all 6).unmarked
    rw [Run.ofEvents_last contested_runs 6 (Nat.le_refl _)] at last
    cases last rfl
  · intro all
    have last := (all 3).stores
    rw [Run.ofEvents_last lostPair_runs 3 (Nat.le_refl _)] at last
    have finished : ∀ caller, (lostPair.calls caller).Finished := by
      intro caller
      by_cases own : caller = 0
      · rw [own]
        trivial
      · have idle : lostPair.calls caller = .idle := by
          show Function.update (Function.update (Function.update expiring.calls 0 _) 0 _) 0 _ caller = _
          rw [Function.update_of_ne own, Function.update_of_ne own, Function.update_of_ne own]
          rfl
        rw [idle]
        trivial
    obtain ⟨t, earlier, issued, stores⟩ := last finished
    obtain rfl := (List.cons.inj issued).1
    exact absurd (stores _ rfl).2 (by decide)

end Link

end FreeSwarm.Federation
