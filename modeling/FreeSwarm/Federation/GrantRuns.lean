import FreeSwarm.Federation.Grants
import FreeSwarm.Foundation.Machine

/-!
# What the gateway grants over time

A history keeps, beside the pairings, what was requested, decided, issued and revoked, the latest
first. Whatever happens in whatever order and at whatever times, tokens are issued only for a code that
the operator approved and that did not expire, or for the refresh token of a pair before, each of them
once, and a revoked client has no token that authorises a request.
-/

namespace FreeSwarm.Federation

open FreeSwarm.Foundation

variable (Hash : Type)

inductive IssueSource where
  | device (code : Hash)
  | refresh (token : Hash)
  deriving DecidableEq

structure Issue where
  source : IssueSource Hash
  client : Text
  time : Time
  access : Hash
  refresh : Hash
  deriving DecidableEq

inductive GrantRecord where
  | requested (code : Hash) (client : Text) (expires : Time)
  | decided (code : Hash) (approve : Bool)
  | issued (i : Issue Hash)
  | revoked (client : Text)
  deriving DecidableEq

/-- What happens at the gateway. The tokens are those that are generated, if any are issued. -/
inductive GrantEvent where
  | deviceAuthorization (req : PairingRequest) (now : Time) (deviceCode userCode : Text)
  | decide (userCode : Text) (approve : Bool)
  /-- `token`, the device grant. -/
  | deviceToken (clientId deviceCode : Text) (now : Time) (access refresh : Text)
  /-- `token`, the refresh grant. -/
  | refreshToken (clientId token : Text) (now : Time) (access refresh : Text)
  | revoke (token : Text)
  | revokeClient (clientId : Text)

/-- The pairings with what was done. -/
structure GrantHistory where
  grants : Grants Hash
  log : List (GrantRecord Hash)
  deriving DecidableEq

def GrantRecord.revokes {Hash : Type} : GrantRecord Hash → Option Text
  | .revoked client => some client
  | _ => none

def GrantRecord.issues {Hash : Type} : GrantRecord Hash → Option (Issue Hash)
  | .issued i => some i
  | _ => none

def sinceRevoked {Hash : Type} (client : Text) (log : List (GrantRecord Hash)) :
    List (GrantRecord Hash) :=
  log.takeWhile fun r => r.revokes ≠ some client

/-- The pair was issued, and its client was not revoked since. -/
def Issue.Live {Hash : Type} (i : Issue Hash) (log : List (GrantRecord Hash)) : Prop :=
  .issued i ∈ sinceRevoked i.client log

namespace GrantHistory
variable {Hash : Type} [DecidableEq Hash] (hash : Text → Hash) (upper : Text → Text)
  (h : GrantHistory Hash)

def deviceAuthorization (req : PairingRequest) (now : Time) (deviceCode userCode : Text) :
    GrantHistory Hash :=
  match h.grants.deviceAuthorization hash req now deviceCode userCode with
  | (.ok _, g) => ⟨g, .requested (hash deviceCode) (req.clientId.take 64) (now + deviceTtlS) :: h.log⟩
  | (.error _, g) => ⟨g, h.log⟩

/-- The operator answers. -/
protected def decide (userCode : Text) (approve : Bool) : GrantHistory Hash :=
  { grants := (h.grants.decide upper userCode approve).2
    log := ((h.grants.asked upper userCode).map fun entry => .decided entry.1 approve).toList ++ h.log }

def token (source : IssueSource Hash) (clientId : Text) (now : Time) :
    Except OauthError Tokens × Grants Hash → GrantHistory Hash
  | (.ok tokens, g) =>
    ⟨g, .issued ⟨source, clientId, now, hash tokens.accessToken, hash tokens.refreshToken⟩ :: h.log⟩
  | (.error _, g) => ⟨g, h.log⟩

def revoke (token : Text) : GrantHistory Hash where
  grants := h.grants.revoke hash token
  log := ((h.grants.clients.filter fun _ c => c.Holds (hash token)).entries.map
    fun entry => .revoked entry.1) ++ h.log

/-- What happens at the gateway. -/
def step : GrantEvent → Option (GrantHistory Hash)
  | .deviceAuthorization req now deviceCode userCode =>
    some (h.deviceAuthorization hash req now deviceCode userCode)
  | .decide userCode approve => some (h.decide upper userCode approve)
  | .deviceToken clientId deviceCode now access refresh =>
    some (h.token hash (.device (hash deviceCode)) clientId now
      (h.grants.deviceToken hash clientId deviceCode now access refresh))
  | .refreshToken clientId token now access refresh =>
    some (h.token hash (.refresh (hash token)) clientId now
      (h.grants.refreshToken hash clientId token now access refresh))
  | .revoke token => some (h.revoke hash token)
  | .revokeClient clientId => some ⟨h.grants.revokeClient clientId, .revoked clientId :: h.log⟩

def Generated (h : GrantHistory Hash) : GrantEvent → Prop
  | .deviceAuthorization _ _ deviceCode _ =>
    ∀ client expires, .requested (hash deviceCode) client expires ∉ h.log
  | .deviceToken _ _ _ access refresh | .refreshToken _ _ _ access refresh =>
    ∀ i, .issued i ∈ h.log → i.access ≠ hash access ∧ i.refresh ≠ hash refresh
  | _ => True

end GrantHistory

/-- Tokens may be issued after what was done: for a device code that was requested by the client, did
not expire, was approved and not declined, or for the refresh token of a pair of the client, which is not
revoked. Nothing was issued for it before. -/
def Issue.Justified {Hash : Type} (i : Issue Hash) (before : List (GrantRecord Hash)) : Prop :=
  (∀ j, .issued j ∈ before → j.source ≠ i.source) ∧
    match i.source with
    | .device code =>
      (∃ expires, .requested code i.client expires ∈ before ∧ i.time ≤ expires) ∧
        .decided code true ∈ before ∧ .decided code false ∉ before
    | .refresh token => ∃ j : Issue Hash, j.Live before ∧ j.client = i.client ∧ j.refresh = token

structure GrantHistory.Lawful {Hash : Type} [DecidableEq Hash] (hash : Text → Hash)
    (h : GrantHistory Hash) : Prop where
  issued : ∀ after i before, h.log = after ++ .issued i :: before → i.Justified before
  /-- A token authorises a client only if it was issued to it, did not expire, and the client was not
  revoked since. -/
  authorises : ∀ token now client, 0 ≤ now → h.grants.clientForToken hash token now = some client →
    ∃ i : Issue Hash, i.Live h.log ∧ i.client = client ∧ i.access = hash token ∧
      now < i.time + accessTtlS
  revoked : ∀ after client before, h.log = after ++ .revoked client :: before →
    ∀ i : Issue Hash, .issued i ∈ before → i.client = client → ∀ token now, 0 ≤ now →
      hash token = i.access → h.grants.clientForToken hash token now = none
  ended : ∀ after client before, h.log = after ++ .revoked client :: before →
    ∀ i : Issue Hash, .issued i ∈ before → i.client = client → ∀ token clientId now access refresh,
      hash token = i.refresh →
        (h.grants.refreshToken hash clientId token now access refresh).1 =
          .error ⟨"invalid_grant".toList, "refresh token unknown, revoked or expired".toList, 400⟩

/-! ## What was done -/

section

variable {Hash : Type} {log new : List (GrantRecord Hash)} {i j : Issue Hash} {client : Text}

theorem Issue.Live.mem (live : i.Live log) : .issued i ∈ log := List.takeWhile_subset _ live

theorem Issue.Live.append (live : i.Live log) (others : ∀ r ∈ new, r.revokes ≠ some i.client) :
    i.Live (new ++ log) := by
  rw [Issue.Live, sinceRevoked, List.takeWhile_append_of_pos]
  · exact List.mem_append_right _ live
  · intro r mem
    exact decide_eq_true (others r mem)

theorem Issue.live_issued : i.Live (.issued i :: log) := by
  rw [Issue.Live, sinceRevoked, List.takeWhile_cons_of_pos (by rfl)]
  exact List.mem_cons_self

def issuesOf (log : List (GrantRecord Hash)) : List (Issue Hash) := log.filterMap GrantRecord.issues

theorem issuesOf_issued : issuesOf (.issued i :: log) = i :: issuesOf log := rfl

theorem mem_issuesOf : i ∈ issuesOf log ↔ .issued i ∈ log := by
  rw [issuesOf, List.mem_filterMap]
  constructor
  · rintro ⟨r, mem, same⟩
    cases r with
    | issued j => rwa [← Option.some.inj same]
    | _ => cases same
  · exact fun mem => ⟨_, mem, rfl⟩

/-- What does not repeat among the pairs tells them apart, and each was issued once: one that is live was
issued after its client was revoked last. -/
theorem not_live_of_revoked {Key : Type} (key : Issue Hash → Key)
    (nodup : ((issuesOf log).map key).Nodup) {after before : List (GrantRecord Hash)}
    (split : log = after ++ .revoked client :: before) (old : .issued j ∈ before)
    (owner : j.client = client) (live : i.Live log) : key i ≠ key j := by
  intro same
  have jMem : j ∈ issuesOf log := by
    rw [mem_issuesOf, split]
    exact List.mem_append_right _ (List.mem_cons_of_mem _ old)
  obtain rfl := List.inj_on_of_nodup_map nodup (mem_issuesOf.mpr live.mem) jMem same
  -- it is listed before the record of the revocation and behind it
  have recent : .issued i ∈ after := by
    rw [Issue.Live, sinceRevoked, split, owner, List.takeWhile_append] at live
    split at live
    · rw [List.takeWhile_cons_of_neg (by simp [GrantRecord.revokes]), List.append_nil] at live
      exact live
    · exact List.takeWhile_subset _ live
  rw [split, issuesOf, List.filterMap_append, List.map_append, List.nodup_append] at nodup
  exact nodup.2.2 (key i) (List.mem_map_of_mem (mem_issuesOf.mpr recent)) (key i)
    (List.mem_map_of_mem (mem_issuesOf.mpr (List.mem_cons_of_mem _ old))) rfl

/-- What was done is in order. -/
structure LogOk (log : List (GrantRecord Hash)) : Prop where
  known : ∀ code approve, .decided code approve ∈ log →
    ∃ client expires, .requested code client expires ∈ log
  access : ((issuesOf log).map Issue.access).Nodup
  refresh : ((issuesOf log).map Issue.refresh).Nodup
  issued : ∀ after i before, log = after ++ .issued i :: before → i.Justified before

theorem LogOk.requested (ok : LogOk log) {code : Hash} (mem : .issued i ∈ log)
    (source : i.source = .device code) : ∃ client expires, .requested code client expires ∈ log := by
  obtain ⟨after, before, split⟩ := List.append_of_mem mem
  have justified := (ok.issued _ _ _ split).2
  simp only [source] at justified
  obtain ⟨expires, requested, -⟩ := justified.1
  rw [split]
  exact ⟨_, _, List.mem_append_right _ (List.mem_cons_of_mem _ requested)⟩

theorem LogOk.refreshed (ok : LogOk log) {token : Hash} (mem : .issued i ∈ log)
    (source : i.source = .refresh token) : ∃ j, .issued j ∈ log ∧ j.refresh = token := by
  obtain ⟨after, before, split⟩ := List.append_of_mem mem
  have justified := (ok.issued _ _ _ split).2
  simp only [source] at justified
  obtain ⟨j, live, -, same⟩ := justified
  rw [split]
  exact ⟨j, List.mem_append_right _ (List.mem_cons_of_mem _ live.mem), same⟩

theorem LogOk.cons (ok : LogOk log) {r : GrantRecord Hash} (nothing : r.issues = none)
    (known : ∀ code approve, r = .decided code approve →
      ∃ client expires, .requested code client expires ∈ log) : LogOk (r :: log) where
  known code approve mem := by
    have found : ∃ client expires, .requested code client expires ∈ log := by
      cases List.mem_cons.mp mem with
      | inl here => exact known code approve here.symm
      | inr there => exact ok.known code approve there
    obtain ⟨client, expires, requested⟩ := found
    exact ⟨client, expires, List.mem_cons_of_mem _ requested⟩
  access := by
    rw [issuesOf, List.filterMap_cons_none nothing]
    exact ok.access
  refresh := by
    rw [issuesOf, List.filterMap_cons_none nothing]
    exact ok.refresh
  issued after i before split := by
    cases after with
    | nil =>
      rw [(List.cons.inj split).1] at nothing
      cases nothing
    | cons r' after => exact ok.issued after i before (List.cons.inj split).2

theorem LogOk.issue (ok : LogOk log) (justified : i.Justified log)
    (fresh : ∀ j, .issued j ∈ log → j.access ≠ i.access ∧ j.refresh ≠ i.refresh) :
    LogOk (.issued i :: log) where
  known code approve mem := by
    cases List.mem_cons.mp mem with
    | inl here => cases here
    | inr there =>
      obtain ⟨client, expires, requested⟩ := ok.known code approve there
      exact ⟨client, expires, List.mem_cons_of_mem _ requested⟩
  access := by
    rw [issuesOf_issued, List.map_cons, List.nodup_cons]
    refine ⟨fun mem => ?_, ok.access⟩
    obtain ⟨j, there, same⟩ := List.mem_map.mp mem
    exact (fresh j (mem_issuesOf.mp there)).1 same
  refresh := by
    rw [issuesOf_issued, List.map_cons, List.nodup_cons]
    refine ⟨fun mem => ?_, ok.refresh⟩
    obtain ⟨j, there, same⟩ := List.mem_map.mp mem
    exact (fresh j (mem_issuesOf.mp there)).2 same
  issued after j before split := by
    cases after with
    | nil =>
      obtain ⟨same, rest⟩ := List.cons.inj split
      rw [← GrantRecord.issued.inj same, ← rest]
      exact justified
    | cons r after => exact ok.issued after j before (List.cons.inj split).2

theorem LogOk.revoke (ok : LogOk log) (clients : List Text) :
    LogOk (clients.map GrantRecord.revoked ++ log) := by
  induction clients with
  | nil => exact ok
  | cons client clients ih => exact ih.cons rfl fun _ _ same => nomatch same

end

/-! ## What the records say -/

section

variable {Hash : Type} [DecidableEq Hash] {log new : List (GrantRecord Hash)}

/-- What is known of a request that is kept. -/
structure GrantOk (log : List (GrantRecord Hash)) (code : Hash) (grant : Grant) : Prop where
  requested : .requested code grant.clientId grant.expires ∈ log
  approved : grant.status = .approved → .decided code true ∈ log
  open_ : grant.status ≠ .denied → .decided code false ∉ log
  unused : ∀ i, .issued i ∈ log → i.source ≠ .device code

structure ClientOk (log : List (GrantRecord Hash)) (client : Text) (c : ClientRecord Hash) : Prop where
  access : ∀ token exp, c.access.get? token = some exp →
    ∃ i : Issue Hash, i.Live log ∧ i.client = client ∧ i.access = token ∧ exp = i.time + accessTtlS
  refresh : ∀ token, c.refresh = some token →
    ∃ i : Issue Hash, i.Live log ∧ i.client = client ∧ i.refresh = token
  unused : ∀ token, c.refresh = some token → ∀ i, .issued i ∈ log → i.source ≠ .refresh token

omit [DecidableEq Hash] in
theorem GrantOk.append {code : Hash} {grant : Grant} (ok : GrantOk log code grant)
    (undecided : ∀ approve, .decided code approve ∉ new)
    (unused : ∀ i, .issued i ∈ new → i.source ≠ .device code) : GrantOk (new ++ log) code grant where
  requested := List.mem_append_right _ ok.requested
  approved status := List.mem_append_right _ (ok.approved status)
  open_ status mem := by
    cases List.mem_append.mp mem with
    | inl here => exact undecided _ here
    | inr there => exact ok.open_ status there
  unused i mem := by
    cases List.mem_append.mp mem with
    | inl here => exact unused i here
    | inr there => exact ok.unused i there

theorem ClientOk.append {client : Text} {c : ClientRecord Hash} (ok : ClientOk log client c)
    (others : ∀ r ∈ new, r.revokes ≠ some client)
    (unused : ∀ token, c.refresh = some token → ∀ i, .issued i ∈ new → i.source ≠ .refresh token) :
    ClientOk (new ++ log) client c where
  access token exp found := by
    obtain ⟨i, live, owner, same, expires⟩ := ok.access token exp found
    exact ⟨i, live.append (owner ▸ others), owner, same, expires⟩
  refresh token found := by
    obtain ⟨i, live, owner, same⟩ := ok.refresh token found
    exact ⟨i, live.append (owner ▸ others), owner, same⟩
  unused token found i mem := by
    cases List.mem_append.mp mem with
    | inl here => exact unused token found i here
    | inr there => exact ok.unused token found i there

theorem ClientOk.issue {i : Issue Hash} {c : ClientRecord Hash} (order : LogOk log)
    (access : ∀ token exp, c.access.get? token = some exp → ∃ j : Issue Hash, j.Live log ∧
      j.client = i.client ∧ j.access = token ∧ exp = j.time + accessTtlS)
    (fresh : ∀ j, .issued j ∈ log → j.access ≠ i.access ∧ j.refresh ≠ i.refresh)
    (justified : i.Justified log) :
    ClientOk (.issued i :: log) i.client (c.issue i.time i.access i.refresh) where
  access token exp found := by
    rw [ClientRecord.issue, Dict.get?_set] at found
    split at found
    · rename_i same
      exact ⟨i, Issue.live_issued, rfl, same.symm, (Option.some.inj found).symm⟩
    · obtain ⟨j, live, owner, same, expires⟩ := access token exp (Dict.get?_filter_eq_some.mp found).1
      have others : ∀ r ∈ [GrantRecord.issued i], r.revokes ≠ some j.client := by
        intro r mem
        rw [List.mem_singleton.mp mem]
        rintro ⟨⟩
      exact ⟨j, live.append others, owner, same, expires⟩
  refresh token found := ⟨i, Issue.live_issued, rfl, Option.some.inj found⟩
  unused token found j mem source := by
    cases found
    -- a refresh token that was redeemed is one of a pair before
    have known : ∃ k, .issued k ∈ log ∧ k.refresh = i.refresh := by
      cases List.mem_cons.mp mem with
      | inl here =>
        rw [GrantRecord.issued.inj here] at source
        have before := justified.2
        simp only [source] at before
        obtain ⟨k, live, -, same⟩ := before
        exact ⟨k, live.mem, same⟩
      | inr there => exact order.refreshed there source
    obtain ⟨k, there, same⟩ := known
    exact (fresh k there).2 same

end

/-! ## What each request keeps -/

namespace GrantHistory
variable {Hash : Type} [DecidableEq Hash] {hash : Text → Hash} {upper : Text → Text}
  {h h' : GrantHistory Hash}

/-- The pairings fit what was done. -/
structure Kept (h : GrantHistory Hash) : Prop where
  log : LogOk h.log
  pending : ∀ code grant, h.grants.pending.get? code = some grant → GrantOk h.log code grant
  clients : ∀ client c, h.grants.clients.get? client = some c → ClientOk h.log client c

theorem Kept.deviceAuthorization (kept : h.Kept) (req : PairingRequest) (now : Time)
    (deviceCode userCode : Text)
    (fresh : ∀ client expires, .requested (hash deviceCode) client expires ∉ h.log) :
    (h.deviceAuthorization hash req now deviceCode userCode).Kept := by
  have pruned : ∀ code grant, (h.grants.prune now).pending.get? code = some grant →
      GrantOk h.log code grant :=
    fun code grant found => kept.pending code grant (Dict.get?_filter_eq_some.mp found).1
  rw [GrantHistory.deviceAuthorization]
  obtain ⟨e, same⟩ | ⟨e, same⟩ | ⟨a, addr, same⟩ :=
    h.grants.deviceAuthorization_cases hash req now deviceCode userCode
  · rw [same]
    exact ⟨kept.log, kept.pending, kept.clients⟩
  · rw [same]
    exact ⟨kept.log, pruned, kept.clients⟩
  · rw [same]
    let r : GrantRecord Hash :=
      .requested (hash deviceCode) (req.clientId.take 64) (now + deviceTtlS)
    refine ⟨kept.log.cons rfl (fun _ _ same => by cases same), fun code grant found => ?_,
      fun client c found => ?_⟩
    · rw [Dict.get?_set] at found
      split at found
      · -- the new request, whose code is in no record of before
        rename_i new
        cases found
        rw [new]
        refine ⟨List.mem_cons_self, (fun status => by cases status), fun _ mem => ?_,
          fun i mem source => ?_⟩
        · cases List.mem_cons.mp mem with
          | inl here => cases here
          | inr there =>
            obtain ⟨client, expires, requested⟩ := kept.log.known _ _ there
            exact fresh client expires requested
        · cases List.mem_cons.mp mem with
          | inl here => cases here
          | inr there =>
            obtain ⟨client, expires, requested⟩ := kept.log.requested there source
            exact fresh client expires requested
      · have ok : GrantOk ([r] ++ h.log) code grant :=
          (pruned code grant found).append (by simp [r]) (by simp [r])
        exact ok
    · have ok : ClientOk ([r] ++ h.log) client c :=
        (kept.clients client c found).append (by simp [r, GrantRecord.revokes]) (by simp [r])
      exact ok

theorem Kept.decide (kept : h.Kept) (userCode : Text) (approve : Bool) :
    (h.decide upper userCode approve).Kept := by
  obtain ⟨none_, same⟩ | ⟨code, grant, asked, found, waits, same⟩ :=
    h.grants.decide_cases upper userCode approve
  · rw [GrantHistory.decide, none_, same]
    exact ⟨kept.log, kept.pending, kept.clients⟩
  · rw [GrantHistory.decide, asked, same]
    have ok := kept.pending code grant found
    let r : GrantRecord Hash := .decided code approve
    refine ⟨kept.log.cons rfl (fun code' _ same => ?_), fun code' grant' found' => ?_,
      fun client c found' => ?_⟩
    · obtain ⟨rfl, -⟩ := GrantRecord.decided.inj same
      exact ⟨_, _, ok.requested⟩
    · rw [Dict.get?_set] at found'
      split at found'
      · rename_i here
        obtain rfl := Option.some.inj found'
        rw [here]
        refine ⟨List.mem_cons_of_mem _ ok.requested, fun status => ?_, fun status mem => ?_,
          fun i mem => ?_⟩
        · cases approve with
          | true => exact List.mem_cons_self
          | false => cases status
        · have waited : grant.status ≠ .denied := by
            rw [waits]
            rintro ⟨⟩
          cases List.mem_cons.mp mem with
          | inl here =>
            obtain rfl := (GrantRecord.decided.inj here).2
            exact status rfl
          | inr there => exact ok.open_ waited there
        · cases List.mem_cons.mp mem with
          | inl here => cases here
          | inr there => exact ok.unused i there
      · rename_i other
        have ok' : GrantOk ([r] ++ h.log) code' grant' :=
          (kept.pending code' grant' found').append (by simpa [r] using fun same => absurd same other)
            (by simp [r])
        exact ok'
    · have ok' : ClientOk ([r] ++ h.log) client c :=
        (kept.clients client c found').append (by simp [r, GrantRecord.revokes]) (by simp [r])
      exact ok'

theorem Kept.drop (kept : h.Kept) (clients : List Text) {g : Grants Hash}
    (pending : g.pending = h.grants.pending)
    (gone : ∀ client c, g.clients.get? client = some c →
      h.grants.clients.get? client = some c ∧ client ∉ clients) :
    Kept ⟨g, clients.map GrantRecord.revoked ++ h.log⟩ where
  log := kept.log.revoke clients
  pending code grant found := by
    rw [pending] at found
    exact (kept.pending code grant found).append (by simp) (by simp)
  clients client c found := by
    obtain ⟨before, left⟩ := gone client c found
    refine (kept.clients client c before).append (fun r mem revokes => ?_) (by simp)
    obtain ⟨client', mem', rfl⟩ := List.mem_map.mp mem
    rw [Option.some.inj revokes] at mem'
    exact left mem'

theorem Kept.revoke (kept : h.Kept) (token : Text) : (h.revoke hash token).Kept := by
  have dropped := kept.drop
    ((h.grants.clients.filter fun _ c => c.Holds (hash token)).entries.map Prod.fst)
    (g := h.grants.revoke hash token) rfl
    (fun client c found => by
      obtain ⟨before, free⟩ := Dict.get?_filter_eq_some.mp found
      refine ⟨before, fun mem => ?_⟩
      obtain ⟨⟨client', c'⟩, listed, rfl⟩ := List.mem_map.mp mem
      obtain ⟨there, holds⟩ := Dict.get?_filter_eq_some.mp (Dict.mem_entries_iff.mp listed)
      rw [there] at before
      exact free (Option.some.inj before ▸ holds))
  rw [List.map_map] at dropped
  exact dropped

theorem Kept.revokeClient (kept : h.Kept) (clientId : Text) :
    Kept ⟨h.grants.revokeClient clientId, .revoked clientId :: h.log⟩ :=
  kept.drop [clientId] rfl fun _ _ found => by
    obtain ⟨before, other⟩ := Dict.get?_pop_eq_some.mp found
    exact ⟨before, by simpa using other⟩

theorem Kept.issue (kept : h.Kept) {i : Issue Hash} {g : Grants Hash} {c : ClientRecord Hash}
    (justified : i.Justified h.log)
    (fresh : ∀ j, .issued j ∈ h.log → j.access ≠ i.access ∧ j.refresh ≠ i.refresh)
    (access : ∀ token exp, c.access.get? token = some exp → ∃ j : Issue Hash, j.Live h.log ∧
      j.client = i.client ∧ j.access = token ∧ exp = j.time + accessTtlS)
    (pending : ∀ code grant, g.pending.get? code = some grant →
      h.grants.pending.get? code = some grant ∧ i.source ≠ .device code)
    (others : ∀ client c', client ≠ i.client → h.grants.clients.get? client = some c' →
      ∀ token, c'.refresh = some token → i.source ≠ .refresh token)
    (clients : g.clients = h.grants.clients.set i.client (c.issue i.time i.access i.refresh)) :
    Kept ⟨g, .issued i :: h.log⟩ where
  log := kept.log.issue justified fresh
  pending code grant found := by
    obtain ⟨before, unused⟩ := pending code grant found
    have ok : GrantOk ([.issued i] ++ h.log) code grant := by
      refine (kept.pending code grant before).append (by simp) fun j mem => ?_
      rw [GrantRecord.issued.inj (List.mem_singleton.mp mem)]
      exact unused
    exact ok
  clients client c' found := by
    rw [clients, Dict.get?_set] at found
    split at found
    · rename_i own
      rw [← Option.some.inj found, own]
      exact ClientOk.issue kept.log access fresh justified
    · rename_i other
      have ok : ClientOk ([.issued i] ++ h.log) client c' := by
        refine (kept.clients client c' found).append (by simp [GrantRecord.revokes])
          fun token held j mem => ?_
        rw [GrantRecord.issued.inj (List.mem_singleton.mp mem)]
        exact others client c' other found token held
      exact ok

theorem Kept.deviceToken (kept : h.Kept) (clientId deviceCode : Text) (now : Time)
    (access refresh : Text)
    (fresh : ∀ i, .issued i ∈ h.log → i.access ≠ hash access ∧ i.refresh ≠ hash refresh) :
    (h.token hash (.device (hash deviceCode)) clientId now
      (h.grants.deviceToken hash clientId deviceCode now access refresh)).Kept := by
  obtain ⟨e, same⟩ | ⟨grant, found, ⟨e, same⟩ | ⟨owner, unexpired, approved, same⟩⟩ :=
    h.grants.deviceToken_cases hash clientId deviceCode now access refresh
  · rw [same]
    exact ⟨kept.log, kept.pending, kept.clients⟩
  · rw [same, GrantHistory.token]
    refine ⟨kept.log, fun code grant' found' => ?_, kept.clients⟩
    rw [Dict.get?_set] at found'
    split at found'
    · rename_i here
      have ok := kept.pending _ grant found
      rw [here, ← Option.some.inj found']
      exact ⟨ok.requested, ok.approved, ok.open_, ok.unused⟩
    · exact kept.pending code grant' found'
  · rw [same]
    have ok := kept.pending _ grant found
    let i : Issue Hash := ⟨.device (hash deviceCode), clientId, now, hash access, hash refresh⟩
    have undenied : grant.status ≠ .denied := by
      rw [approved]
      rintro ⟨⟩
    have requested := ok.requested
    rw [owner] at requested
    have justified : i.Justified h.log :=
      ⟨ok.unused, ⟨_, requested, unexpired⟩, ok.approved approved, ok.open_ undenied⟩
    refine kept.issue (i := i) justified fresh (c := grant.client now) (fun _ _ none_ => by cases none_)
      (fun code grant' found' => ?_) (fun _ _ _ _ _ _ => by rintro ⟨⟩) rfl
    obtain ⟨before, other⟩ := Dict.get?_pop_eq_some.mp found'
    exact ⟨before, fun source => other (IssueSource.device.inj source).symm⟩

theorem Kept.refreshToken (kept : h.Kept) (clientId token : Text) (now : Time)
    (access refresh : Text)
    (fresh : ∀ i, .issued i ∈ h.log → i.access ≠ hash access ∧ i.refresh ≠ hash refresh) :
    (h.token hash (.refresh (hash token)) clientId now
      (h.grants.refreshToken hash clientId token now access refresh)).Kept := by
  obtain same | ⟨c, found, holds, -, same⟩ :=
    h.grants.refreshToken_cases hash clientId token now access refresh
  · rw [same]
    exact ⟨kept.log, kept.pending, kept.clients⟩
  · rw [same]
    have ok := kept.clients clientId c found
    let i : Issue Hash := ⟨.refresh (hash token), clientId, now, hash access, hash refresh⟩
    have justified : i.Justified h.log := ⟨ok.unused _ holds, ok.refresh _ holds⟩
    refine kept.issue (i := i) justified fresh (c := { c with lastSeen := now }) ok.access
      (fun code grant pending => ⟨pending, nofun⟩)
      (fun client c' other found' token' held source => other ?_) rfl
    -- the token belongs to one pair, and so to one client
    obtain rfl := IssueSource.refresh.inj source
    obtain ⟨j, live, owner, mine⟩ := ok.refresh _ holds
    obtain ⟨k, live', owner', theirs⟩ := (kept.clients client c' found').refresh _ held
    have one : k = j := List.inj_on_of_nodup_map kept.log.refresh (mem_issuesOf.mpr live'.mem)
      (mem_issuesOf.mpr live.mem) (theirs.trans mine.symm)
    rw [← owner', one, owner]

theorem Kept.step (kept : h.Kept) {ev : GrantEvent} (generated : h.Generated hash ev)
    (taken : h.step hash upper ev = some h') : h'.Kept := by
  cases ev with
  | deviceAuthorization req now deviceCode userCode =>
    cases taken
    exact kept.deviceAuthorization req now deviceCode userCode generated
  | decide userCode approve =>
    cases taken
    exact kept.decide userCode approve
  | deviceToken clientId deviceCode now access refresh =>
    cases taken
    exact kept.deviceToken clientId deviceCode now access refresh generated
  | refreshToken clientId token now access refresh =>
    cases taken
    exact kept.refreshToken clientId token now access refresh generated
  | revoke token =>
    cases taken
    exact kept.revoke token
  | revokeClient clientId =>
    cases taken
    exact kept.revokeClient clientId

/-! ## The law -/

theorem Kept.authorises (kept : h.Kept) {token : Text} {now : Time} {client : Text}
    (later : 0 ≤ now) (found : h.grants.clientForToken hash token now = some client) :
    ∃ i : Issue Hash, i.Live h.log ∧ i.client = client ∧ i.access = hash token ∧
      now < i.time + accessTtlS := by
  obtain ⟨⟨client', c⟩, first, rfl⟩ := Option.map_eq_some_iff.mp found
  obtain ⟨here, unexpired⟩ := Dict.find?_eq_some first
  cases held : c.access.get? (hash token) with
  | none =>
    rw [held] at unexpired
    exact absurd unexpired (not_lt.mpr later)
  | some exp =>
    rw [held, Option.getD_some] at unexpired
    obtain ⟨i, live, owner, same, expires⟩ := (kept.clients client' c here).access _ exp held
    exact ⟨i, live, owner, same, expires ▸ unexpired⟩

theorem Kept.lawful (kept : h.Kept) : h.Lawful hash where
  issued := kept.log.issued
  authorises _ _ _ later found := kept.authorises later found
  revoked after client before split j old owner token now later same := by
    cases found : h.grants.clientForToken hash token now with
    | none => rfl
    | some client' =>
      obtain ⟨i, live, -, mine, -⟩ := kept.authorises later found
      exact absurd (mine.trans same)
        (not_live_of_revoked Issue.access kept.log.access split old owner live)
  ended after client before split j old owner token clientId now access refresh same := by
    obtain refused | ⟨c, found, holds, -⟩ :=
      h.grants.refreshToken_cases hash clientId token now access refresh
    · rw [refused]
    · obtain ⟨i, live, -, mine⟩ := (kept.clients clientId c found).refresh _ holds
      exact absurd (mine.trans same)
        (not_live_of_revoked Issue.refresh kept.log.refresh split old owner live)

/-- Nothing is paired yet. -/
def begins (name : Text) : GrantHistory Hash := ⟨⟨name, .empty, .empty⟩, []⟩

theorem kept_begins (name : Text) : (begins name : GrantHistory Hash).Kept where
  log := ⟨nofun, List.nodup_nil, List.nodup_nil, fun after _ _ split => by cases after <;> cases split⟩
  pending _ _ found := nomatch found
  clients _ _ found := nomatch found

/-- Whatever happens, in whatever order and at whatever times, the law of the grants holds. -/
theorem grants_lawful (name : Text)
    (reached : Reaches (step hash upper) (Generated hash) (begins name) h) : h.Lawful hash :=
  (reached.invariant Kept (kept_begins name) fun _ _ _ kept generated taken =>
    kept.step generated taken).lawful

def laptop : PairingRequest where
  clientId := List.replicate 32 'a'
  clientName := "laptop".toList
  scope := inferenceScope
  protocol := some 1
  minProtocol := some 1
  clientFingerprint := "ab:cd".toList
  appVersion := appVersion
  host := some "10.0.0.2".toList

def approvedLaptop : GrantHistory Text where
  grants := {
    name := "desktop".toList
    pending := Dict.empty.set "code".toList {
      userCode := "BCDF-GHJK".toList
      clientId := List.replicate 32 'a'
      clientName := "laptop".toList
      clientFp := "ab:cd".toList
      addr := "10.0.0.2".toList
      scope := inferenceScope
      clientVersion := some appVersion
      created := 1000
      expires := 1600
      status := .approved }
    clients := .empty }
  log := [.decided "code".toList true, .requested "code".toList (List.replicate 32 'a') 1600]

/-- Its code is redeemed, and it is revoked with its refresh token. -/
def revokedLaptop : GrantHistory Text where
  grants := ⟨"desktop".toList, .empty, .empty⟩
  log := .revoked (List.replicate 32 'a') ::
    .issued ⟨.device "code".toList, List.replicate 32 'a', 1010, "access".toList, "refresh".toList⟩ ::
    approvedLaptop.log

theorem revokedLaptop_lawful : revokedLaptop.Lawful id := by
  let start : GrantHistory Text := begins "desktop".toList
  let first := start.deviceAuthorization id laptop 1000 "code".toList "BCDF-GHJK".toList
  let third := approvedLaptop.token id (.device "code".toList) (List.replicate 32 'a') 1010
    (approvedLaptop.grants.deviceToken id (List.replicate 32 'a') "code".toList 1010 "access".toList
      "refresh".toList)
  have asks : start.Generated id (.deviceAuthorization laptop 1000 "code".toList "BCDF-GHJK".toList) :=
    fun _ _ => List.not_mem_nil
  have approves : first.Generated id (.decide "bcdf-ghjk".toList true) := trivial
  have approved : first.step id (List.map Char.toUpper) (.decide "bcdf-ghjk".toList true) =
      some approvedLaptop := by
    with_unfolding_all decide
  have redeems : approvedLaptop.Generated id (.deviceToken (List.replicate 32 'a') "code".toList 1010
      "access".toList "refresh".toList) := by
    intro i mem
    cases mem with
    | tail _ mem =>
      cases mem with
      | tail _ mem => exact absurd mem List.not_mem_nil
  have revokes : third.Generated id (.revoke "refresh".toList) := trivial
  have revoked : third.step id (List.map Char.toUpper) (.revoke "refresh".toList) =
      some revokedLaptop := by
    with_unfolding_all decide
  exact grants_lawful "desktop".toList
    (.step (.step (.step (.step .refl asks rfl) approves approved) redeems rfl) revokes revoked)

end GrantHistory

end FreeSwarm.Federation
