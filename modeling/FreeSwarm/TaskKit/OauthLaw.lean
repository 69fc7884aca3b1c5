import FreeSwarm.TaskKit.OauthRuns

/-!
# The law of the authorization server

What the server stores is explained by what it did: a code that is stored was granted and not redeemed, a
refresh token that is stored belongs to a pair that was issued and was not redeemed, and no access token
is ever stored as revoked. From this, each clean call keeps the law, and any other call breaks it.
-/

namespace FreeSwarm.TaskKit

open FreeSwarm.Foundation TaskServerOAuth

section

variable {Hash : Type} {env : OauthEnv Hash} {token body sig : Text}

/-! ## The parts of a token -/

theorem Parts.token_eq (parts : Parts token body sig) :
    token = "fsat".toList ++ '.' :: body ++ '.' :: sig := by
  rw [← @List.intercalate_splitOn _ token _ _ '.', parts]
  simp

theorem Parts.unique {body' sig' : Text} (parts : Parts token body sig)
    (parts' : Parts token body' sig') : body = body' ∧ sig = sig' := by
  have same := Eq.trans (Eq.symm parts) parts'
  simp only [List.cons.injEq, and_true, true_and] at same
  exact same

theorem Parts.isPrefixOf (parts : Parts token body sig) :
    "fsat.".toList.isPrefixOf token = true := by
  rw [parts.token_eq, List.isPrefixOf_iff_prefix]
  exact ⟨body ++ '.' :: sig, by simp⟩

theorem parts_accessToken (p : Payload) : Parts (env.accessToken p) (Base64.encode (env.dumps p))
    (Base64.encode (env.mac (Base64.encode (env.dumps p)))) := by
  have plain : ∀ bytes, '.' ∉ Base64.encode bytes :=
    fun bytes mem => (Base64.of_mem_encode mem).1 rfl
  have split := @List.splitOn_intercalate _ ["fsat".toList, Base64.encode (env.dumps p),
      Base64.encode (env.mac (Base64.encode (env.dumps p)))] _ _ '.' (by
        intro part mem
        simp only [List.mem_cons, List.not_mem_nil, or_false] at mem
        obtain rfl | rfl | rfl := mem
        · decide
        · exact plain _
        · exact plain _) (by simp)
  rw [Parts, OauthEnv.accessToken, ← split]
  congr 1
  simp [List.intercalate]

theorem OauthEnv.signed_of_parts (env : OauthEnv Hash) (parts : Parts token body sig) :
    env.signed token =
      match Base64.decodePadded sig with
      | none => .error .malformed
      | some bytes =>
        if env.mac body ≠ bytes then .ok none
        else
          match (Base64.decodePadded body).bind env.loads with
          | none => .error .malformed
          | some p => .ok (some p) := by
  rw [OauthEnv.signed, parts]
  exact if_neg fun other => other rfl

theorem OauthEnv.signed_of_no_parts (env : OauthEnv Hash)
    (other : ∀ body sig, ¬Parts token body sig) : env.signed token = .ok none := by
  rw [OauthEnv.signed]
  split
  · next kind body sig split =>
    by_cases same : kind = "fsat".toList
    · rw [same] at split
      exact absurd split (other body sig)
    · rw [if_pos same]
  · rfl

end

/-! ## What is stored -/

section

variable {Hash : Type}

structure TokenIssue.Written (env : OauthEnv Hash) (i : TokenIssue Hash) : Prop where
  access : i.access = env.accessToken i.payload
  aud : i.payload.aud = env.resource
  readBack : env.loads (env.dumps i.payload) = some i.payload

variable [DecidableEq Hash]

/-- The law, and what the calls rely on to keep it. -/
structure TaskHistory.Kept (env : OauthEnv Hash) (h : TaskHistory Hash) : Prop
    extends h.Lawful where
  free : h.held = false
  stored : ∀ code c, h.server.codes.get? code = some c →
    c.code = code ∧ .granted c ∈ h.log ∧ ∀ i, .issued i ∈ h.log → i.source ≠ .code code
  loaded : ∀ c ∈ h.codes, .granted c ∈ h.log
  storedRefresh : ∀ token r, h.server.store.refresh.get? token = some r →
    (∃ i, .issued i ∈ h.log ∧ i.refresh = token ∧ i.scopes = r.scp) ∧
      ∀ i, .issued i ∈ h.log → i.source ≠ .refresh token
  loadedRefresh : ∀ r ∈ h.refreshTokens,
    ∃ i, .issued i ∈ h.log ∧ i.refresh = env.hash r.token ∧ i.scopes = r.scopes
  unrevoked : h.server.store.revoked = .empty
  written : ∀ i, .issued i ∈ h.log → i.Written env

variable {h : TaskHistory Hash}

omit [DecidableEq Hash] in
theorem TaskHistory.Lawful.source (lawful : h.Lawful) {i : TokenIssue Hash}
    (issued : .issued i ∈ h.log) :
    (∀ code, i.source = .code code → ∃ c, .granted c ∈ h.log ∧ c.code = code) ∧
      ∀ token, i.source = .refresh token → ∃ j, .issued j ∈ h.log ∧ j.refresh = token := by
  obtain ⟨after, before, split⟩ := List.append_of_mem issued
  have justified := (lawful.records after _ before split).2
  have earlier : ∀ r ∈ before, r ∈ h.log := by
    intro r mem
    rw [split]
    exact List.mem_append_right _ (List.mem_cons_of_mem _ mem)
  constructor
  · intro code same
    rw [same] at justified
    obtain ⟨c, mem, found, -⟩ := justified
    exact ⟨c, earlier _ mem, found⟩
  · intro token same
    rw [same] at justified
    obtain ⟨j, mem, found, -⟩ := justified
    exact ⟨j, earlier _ mem, found⟩

omit [DecidableEq Hash] in
theorem Descends.mono {log log' : List (TaskRecord Hash)} {c : AuthorizationCode} {i : TokenIssue Hash}
    (descends : Descends log c i) (more : log ⊆ log') : Descends log' c i := by
  induction descends with
  | code granted issued source => exact .code (more granted) (more issued) source
  | refresh before issued source ih => exact .refresh ih (more issued) source

omit [DecidableEq Hash] in
theorem TaskHistory.Lawful.source_ne_code (lawful : h.Lawful) {code : Text}
    (new : ∀ c, .granted c ∈ h.log → c.code ≠ code) (i : TokenIssue Hash) (issued : .issued i ∈ h.log) :
    i.source ≠ .code code := by
  intro same
  obtain ⟨c, granted, found⟩ := (lawful.source issued).1 code same
  exact new c granted found

omit [DecidableEq Hash] in
theorem TaskHistory.Lawful.source_ne_refresh (lawful : h.Lawful) {token : Hash}
    (new : ∀ i, .issued i ∈ h.log → i.refresh ≠ token) (i : TokenIssue Hash)
    (issued : .issued i ∈ h.log) : i.source ≠ .refresh token := by
  intro same
  obtain ⟨j, issued', found⟩ := (lawful.source issued).2 token same
  exact new j issued' found

/-! ## What the calls do to it -/

namespace TaskHistory.Kept

variable {env : OauthEnv Hash} {h : TaskHistory Hash}

theorem withServer (kept : h.Kept env) (s : TaskServer Hash)
    (codes : ∀ code c, s.codes.get? code = some c → h.server.codes.get? code = some c)
    (refresh : ∀ token r, s.store.refresh.get? token = some r →
      h.server.store.refresh.get? token = some r)
    (revoked : s.store.revoked = .empty) :
    TaskHistory.Kept env { h with held := false, server := s } where
  records := kept.records
  granted := kept.granted
  free := rfl
  stored code c here := kept.stored code c (codes code c here)
  loaded := kept.loaded
  storedRefresh token r here := kept.storedRefresh token r (refresh token r here)
  loadedRefresh := kept.loadedRefresh
  unrevoked := revoked
  written := kept.written

theorem note (kept : h.Kept env) {r : TaskRecord Hash} (right : r.Right h.log)
    (other : ∀ i, r ≠ .issued i) : (h.note r).Kept env := by
  have issued : ∀ i, .issued i ∈ (h.note r).log → .issued i ∈ h.log := by
    intro i mem
    cases List.mem_cons.mp mem with
    | inl same => exact absurd same.symm (other i)
    | inr mem => exact mem
  have more : ∀ r', r' ∈ h.log → r' ∈ (h.note r).log := fun _ mem => List.mem_cons_of_mem _ mem
  exact {
    records := eachAfter_cons.mpr ⟨right, kept.records⟩
    granted := by
      intro i mem
      obtain ⟨c, descends, fewer⟩ := kept.granted i (issued i mem)
      exact ⟨c, descends.mono more, fewer⟩
    free := kept.free
    stored := by
      intro code c here
      obtain ⟨same, granted, unused⟩ := kept.stored code c here
      exact ⟨same, more _ granted, fun i mem => unused i (issued i mem)⟩
    loaded := fun c mem => more _ (kept.loaded c mem)
    storedRefresh := by
      intro token r' here
      obtain ⟨⟨i, mem, found⟩, unused⟩ := kept.storedRefresh token r' here
      exact ⟨⟨i, more _ mem, found⟩, fun i mem => unused i (issued i mem)⟩
    loadedRefresh := by
      intro r' mem
      obtain ⟨i, mem, found⟩ := kept.loadedRefresh r' mem
      exact ⟨i, more _ mem, found⟩
    unrevoked := kept.unrevoked
    written := fun i mem => kept.written i (issued i mem) }

theorem grant (kept : h.Kept env) {c : AuthorizationCode} {s : TaskServer Hash}
    (new : ∀ c', .granted c' ∈ h.log → c'.code ≠ c.code)
    (codes : ∀ code c', s.codes.get? code = some c' →
      code = c.code ∧ c' = c ∨ h.server.codes.get? code = some c')
    (store : s.store = h.server.store) :
    (TaskHistory.note (.granted c) { h with held := false, server := s }).Kept env := by
  have before := kept.note (r := .granted c) trivial fun _ same => nomatch same
  exact {
    records := before.records
    granted := before.granted
    free := rfl
    stored := by
      intro code c' here
      obtain ⟨rfl, rfl⟩ | there := codes code c' here
      · refine ⟨rfl, List.mem_cons_self, fun i mem => ?_⟩
        cases List.mem_cons.mp mem with
        | inl same => nomatch same
        | inr mem => exact kept.source_ne_code new i mem
      · exact before.stored code c' there
    loaded := before.loaded
    storedRefresh := by
      intro token r here
      change s.store.refresh.get? token = some r at here
      rw [store] at here
      exact before.storedRefresh token r here
    loadedRefresh := before.loadedRefresh
    unrevoked := by
      show s.store.revoked = _
      rw [store]
      exact kept.unrevoked
    written := before.written }

theorem issue (kept : h.Kept env) {i : TokenIssue Hash} {s : TaskServer Hash}
    (justified : i.Justified h.log) (written : i.Written env)
    (new : ∀ j, .issued j ∈ h.log → j.refresh ≠ i.refresh)
    (codes : ∀ code c, s.codes.get? code = some c →
      h.server.codes.get? code = some c ∧ i.source ≠ .code code)
    (refresh : ∀ token r, s.store.refresh.get? token = some r →
      token = i.refresh ∧ i.scopes = r.scp ∨
        h.server.store.refresh.get? token = some r ∧ i.source ≠ .refresh token)
    (revoked : s.store.revoked = .empty) :
    (TaskHistory.note (.issued i) { h with held := false, server := s }).Kept env := by
  have more : ∀ r, r ∈ h.log → r ∈ TaskRecord.issued i :: h.log :=
    fun _ mem => List.mem_cons_of_mem _ mem
  have issued : ∀ j, .issued j ∈ TaskRecord.issued i :: h.log → j = i ∨ .issued j ∈ h.log := by
    intro j mem
    cases List.mem_cons.mp mem with
    | inl same => exact .inl (TaskRecord.issued.inj same)
    | inr mem => exact .inr mem
  exact {
    records := eachAfter_cons.mpr ⟨justified, kept.records⟩
    granted := by
      intro j mem
      obtain rfl | mem := issued j mem
      · have source := justified.2
        split at source
        · next code same =>
          obtain ⟨c, granted, rfl, scopes⟩ := source
          exact ⟨c, .code (more _ granted) List.mem_cons_self same, scopes ▸ List.Subset.refl _⟩
        · next token same =>
          obtain ⟨j', mem, rfl, fewer⟩ := source
          obtain ⟨c, descends, fewer'⟩ := kept.granted j' mem
          exact ⟨c, .refresh (descends.mono more) List.mem_cons_self same,
            List.Subset.trans fewer fewer'⟩
      · obtain ⟨c, descends, fewer⟩ := kept.granted j mem
        exact ⟨c, descends.mono more, fewer⟩
    free := rfl
    stored := by
      intro code c here
      obtain ⟨there, other⟩ := codes code c here
      obtain ⟨same, granted, unused⟩ := kept.stored code c there
      refine ⟨same, more _ granted, fun j mem => ?_⟩
      obtain rfl | mem := issued j mem
      · exact other
      · exact unused j mem
    loaded := fun c mem => more _ (kept.loaded c mem)
    storedRefresh := by
      intro token r here
      obtain ⟨rfl, scopes⟩ | ⟨there, other⟩ := refresh token r here
      · refine ⟨⟨i, List.mem_cons_self, rfl, scopes⟩, fun j mem => ?_⟩
        obtain rfl | mem := issued j mem
        · intro same
          have source := justified.2
          rw [same] at source
          obtain ⟨j', mem, again, -⟩ := source
          exact new j' mem again
        · exact kept.source_ne_refresh new j mem
      · obtain ⟨⟨j, mem, found⟩, unused⟩ := kept.storedRefresh token r there
        refine ⟨⟨j, more _ mem, found⟩, fun j mem => ?_⟩
        obtain rfl | mem := issued j mem
        · exact other
        · exact unused j mem
    loadedRefresh := by
      intro r mem
      obtain ⟨j, mem, found⟩ := kept.loadedRefresh r mem
      exact ⟨j, more _ mem, found⟩
    unrevoked := revoked
    written := by
      intro j mem
      obtain rfl | mem := issued j mem
      · exact written
      · exact kept.written j mem }

end TaskHistory.Kept

omit [DecidableEq Hash] in
theorem submit_cases (env : OauthEnv Hash) (s : TaskServer Hash) (tx passphrase decision code : Text)
    (now : Time) :
    let after := submit env s tx passphrase decision now code
    after.2.store = s.store ∧
      ((∃ c, TaskHistory.grantedBy code after.1 after.2 = some c ∧ c.code = code ∧
          after.2.codes = (s.codes.filter fun _ c => now < c.expiresAt).set code c) ∨
        TaskHistory.grantedBy code after.1 after.2 = none ∧ after.2.codes = s.codes) := by
  unfold submit
  split
  · exact ⟨rfl, .inr ⟨rfl, rfl⟩⟩
  · next consent found =>
    dsimp only
    split_ifs with expired denied locked wrong
    · exact ⟨rfl, .inr ⟨rfl, rfl⟩⟩
    · refine ⟨rfl, .inr ⟨?_, rfl⟩⟩
      rw [TaskHistory.grantedBy, if_neg (by simp)]
    · exact ⟨rfl, .inr ⟨rfl, rfl⟩⟩
    · exact ⟨rfl, .inr ⟨rfl, rfl⟩⟩
    · refine ⟨rfl, .inl ⟨Consent.code consent now code, ?_, rfl, rfl⟩⟩
      rw [TaskHistory.grantedBy, if_pos (by simp)]
      exact Dict.get?_set_self

/-! ### The parts of `revoke_token` -/

/-- The verification that `revoke_token` makes while it holds the lock. -/
def verified (env : OauthEnv Hash) (token : Text) (now : Time) : TaskCall Hash (Option Payload) :=
  if "fsat.".toList.isPrefixOf token then TaskServerOAuth.verify env token now else pure none

/-- What `revoke_token` writes, with the payload that was verified. -/
def drop (env : OauthEnv Hash) (token : Text) (s : TokenStore Hash) (p : Option Payload) :
    TaskCall Hash Unit :=
  LockM.act fun server => .ok ((), { server with
    store := {
      refresh := s.refresh.pop (env.hash token)
      revoked := match p with
        | some p => s.revoked.set p.jti p.exp
        | none => s.revoked } })

theorem revokeToken_eq (env : OauthEnv Hash) (token : Text) (now : Time) :
    TaskServerOAuth.revokeToken env token now =
      LockM.withLock (LockM.read (fun s => s.store.live now) >>= fun s =>
        verified env token now >>= drop env token s) := by
  unfold TaskServerOAuth.revokeToken verified
  by_cases start : "fsat.".toList.isPrefixOf token = true
  · simp only [start, if_true]
    rfl
  · simp only [start]
    rfl

theorem revoke_under (env : OauthEnv Hash) (token : Text) (now : Time) (s : TaskServer Hash) :
    (LockM.read (fun s => s.store.live now) >>= fun s =>
      verified env token now >>= drop env token s) (true, s) =
        (verified env token now >>= drop env token (s.store.live now)) (true, s) :=
  LockM.read_andThen _

namespace TaskHistory.Kept

variable {env : OauthEnv Hash} {h h' : TaskHistory Hash}

theorem live_revoked (kept : h.Kept env) (now : Time) : (h.server.store.live now).revoked = .empty := by
  rw [TokenStore.live, kept.unrevoked]
  rfl

variable {now : Time} {token : Text} {i : TokenIssue Hash}

theorem of_live {s : TokenStore Hash} {token : Hash} {r : RefreshRecord}
    (here : (s.live now).refresh.get? token = some r) : s.refresh.get? token = some r :=
  (Dict.get?_filter_eq_some.mp here).1

theorem authorize (kept : h.Kept env) {tx clientId : Text} {params : AuthorizationParams}
    (taken : h.step env (.authorize tx now clientId params) = some h') : h'.Kept env := by
  rw [TaskHistory.step, Option.some.injEq, TaskHistory.after, kept.free] at taken
  subst taken
  exact kept.withServer _ (fun _ _ here => here) (fun _ _ here => here) kept.unrevoked

theorem consentSubmit (kept : h.Kept env) {tx passphrase decision code : Text}
    (promised : h.Promised env (.consentSubmit tx passphrase decision now code))
    (taken : h.step env (.consentSubmit tx passphrase decision now code) = some h') : h'.Kept env := by
  rw [TaskHistory.step, Option.some.injEq, TaskHistory.after, kept.free] at taken
  obtain ⟨store, granted⟩ := submit_cases env h.server tx passphrase decision code now
  generalize after : submit env h.server tx passphrase decision now code = after_ at store granted
  have call : TaskServerOAuth.consentSubmit env tx passphrase decision now code (false, h.server) =
      (.returned after_.1, (false, after_.2)) := by
    rw [← after]
    rfl
  rw [call] at taken
  subst taken
  obtain ⟨c, found, same, codes⟩ | ⟨found, codes⟩ := granted
  · dsimp only
    rw [found]
    refine kept.grant (c := c) (s := after_.2) (fun c' mem => same ▸ promised c' mem) ?_ store
    intro code' c' here
    rw [codes, Dict.get?_set] at here
    split_ifs at here with key
    · exact .inl ⟨key.trans same.symm, (Option.some.inj here).symm⟩
    · exact .inr (Dict.get?_filter_eq_some.mp here).1
  · dsimp only
    rw [found]
    exact kept.withServer _ (fun _ _ here => codes ▸ here) (fun _ _ here => store ▸ here)
      (store ▸ kept.unrevoked)

theorem loadAuthorizationCode (kept : h.Kept env) {clientId code : Text}
    (taken : h.step env (.loadAuthorizationCode clientId code now) = some h') : h'.Kept env := by
  rw [TaskHistory.step, Option.some.injEq, TaskHistory.after, kept.free] at taken
  subst taken
  have same := kept.withServer h.server (fun _ _ here => here) (fun _ _ here => here) kept.unrevoked
  refine { same with loaded := ?_ }
  intro c mem
  cases List.mem_append.mp mem with
  | inl mem =>
    have found := (Option.filter_eq_some_iff.mp (Option.mem_toList.mp mem)).1
    exact (kept.stored code c found).2.1
  | inr mem => exact kept.loaded c mem

theorem loadRefreshToken (kept : h.Kept env) {clientId token : Text}
    (taken : h.step env (.loadRefreshToken clientId token now) = some h') : h'.Kept env := by
  rw [TaskHistory.step, Option.some.injEq, TaskHistory.after, kept.free] at taken
  subst taken
  have same := kept.withServer h.server (fun _ _ here => here) (fun _ _ here => here) kept.unrevoked
  refine { same with loadedRefresh := ?_ }
  intro r mem
  cases List.mem_append.mp mem with
  | inl mem =>
    obtain ⟨r', found, rfl⟩ := Option.map_eq_some_iff.mp (Option.mem_toList.mp mem)
    have here := of_live (Option.filter_eq_some_iff.mp found).1
    exact (kept.storedRefresh _ r' here).1
  | inr mem => exact kept.loadedRefresh r mem

/-- A code is exchanged: the call raises, or a pair is issued for the code, which is not stored any
more. -/
theorem exchangeAuthorizationCode (kept : h.Kept env) {clientId : Text} {c : AuthorizationCode}
    {jti refresh : Text}
    (promised : h.Promised env (.exchangeAuthorizationCode clientId c now jti refresh))
    (taken : h.step env (.exchangeAuthorizationCode clientId c now jti refresh) = some h') :
    h'.Kept env := by
  obtain ⟨loaded, same⟩ := Option.ite_none_right_eq_some.mp taken
  obtain ⟨new, readBack⟩ := promised
  have granted := kept.loaded c loaded
  rw [Option.some.injEq, TaskHistory.after, kept.free, TaskServerOAuth.exchangeAuthorizationCode,
    LockM.withLock_act_bind] at same
  cases found : h.server.codes.get? c.code with
  | none =>
    simp only [found, Option.isSome_none, Bool.false_eq_true, if_false] at same
    subst same
    exact kept.withServer _ (fun _ _ here => here) (fun _ _ here => here) kept.unrevoked
  | some c' =>
    simp only [found, Option.isSome_some, if_true] at same
    subst same
    refine kept.issue ⟨?_, c, granted, rfl, rfl⟩ ⟨rfl, rfl, readBack⟩ new ?_ ?_ ?_
    · exact (kept.stored c.code c' found).2.2
    · intro code c'' here
      obtain ⟨there, other⟩ := Dict.get?_pop_eq_some.mp here
      exact ⟨there, fun same => other (TokenSource.code.inj same).symm⟩
    · intro token r here
      change ((h.server.store.live now).refresh.set (env.hash refresh)
        ⟨clientId, c.scopes, wholeSeconds now + refreshTtl⟩).get? token = some r at here
      rw [Dict.get?_set] at here
      split_ifs at here with key
      · exact .inl ⟨key, congrArg RefreshRecord.scp (Option.some.inj here)⟩
      · exact .inr ⟨of_live here, fun same => nomatch same⟩
    · exact kept.live_revoked now

theorem exchangeRefreshToken (kept : h.Kept env) {clientId : Text} {r : RefreshToken}
    {scopes : List Text} {jti refresh : Text}
    (promised : h.Promised env (.exchangeRefreshToken clientId r scopes now jti refresh))
    (taken : h.step env (.exchangeRefreshToken clientId r scopes now jti refresh) = some h') :
    h'.Kept env := by
  obtain ⟨loaded, same⟩ := Option.ite_none_right_eq_some.mp taken
  obtain ⟨new, readBack⟩ := promised
  obtain ⟨i, issued, mine, granted⟩ := kept.loadedRefresh r loaded
  rw [Option.some.injEq, TaskHistory.after, kept.free, TaskServerOAuth.exchangeRefreshToken,
    LockM.withLock_act_bind] at same
  cases found : (h.server.store.live now).refresh.get? (env.hash r.token) with
  | none =>
    simp only [found, Option.isSome_none, Bool.false_eq_true, if_false] at same
    subst same
    exact kept.withServer _ (fun _ _ here => here) (fun _ _ here => here) kept.unrevoked
  | some r' =>
    simp only [found, Option.isSome_some, if_true] at same
    subst same
    have fewer : refreshedScopes r scopes ⊆ i.scopes := by
      intro scope mem
      rw [granted]
      exact of_decide_eq_true (List.mem_filter.mp mem).2
    refine kept.issue ⟨?_, i, issued, mine, fewer⟩ ⟨rfl, rfl, readBack⟩ new ?_ ?_ ?_
    · exact (kept.storedRefresh _ r' (of_live found)).2
    · exact fun code c here => ⟨here, fun same => nomatch same⟩
    · intro token r'' here
      let popped : TokenStore Hash := { h.server.store.live now with
        refresh := (h.server.store.live now).refresh.pop (env.hash r.token) }
      change ((popped.live now).refresh.set (env.hash refresh)
        ⟨clientId, refreshedScopes r scopes, wholeSeconds now + refreshTtl⟩).get? token = some r'' at here
      rw [Dict.get?_set] at here
      split_ifs at here with key
      · exact .inl ⟨key, congrArg RefreshRecord.scp (Option.some.inj here)⟩
      · obtain ⟨there, other⟩ := Dict.get?_pop_eq_some.mp (of_live here)
        exact .inr ⟨of_live there, fun same => other (TokenSource.refresh.inj same).symm⟩
    · show ((h.server.store.live now).revoked.filter fun _ exp => now < (exp : ℚ)) = _
      rw [kept.live_revoked now]
      rfl

/-! ### Tokens that are verified or revoked -/

/-- What a text is to the server: no token of it; one whose signature cannot be decoded; or the body of a
pair that was issued, with the right signature. -/
theorem signed_cases (kept : h.Kept env)
    (promised : ∀ body sig, Parts token body sig → Base64.decodePadded sig = some (env.mac body) →
      ∃ i, .issued i ∈ h.log ∧ body = Base64.encode (env.dumps i.payload)) :
    (env.signed token = .ok none ∧ ∀ body sig, Parts token body sig →
        ∃ bytes, Base64.decodePadded sig = some bytes ∧ env.mac body ≠ bytes) ∨
      (env.signed token = .error .malformed ∧ ∃ body sig, Parts token body sig ∧
        Base64.decodePadded sig = none) ∨
      ∃ sig i, .issued i ∈ h.log ∧ Parts token (Base64.encode (env.dumps i.payload)) sig ∧
        Base64.decodePadded sig = some (env.mac (Base64.encode (env.dumps i.payload))) ∧
        env.signed token = .ok (some i.payload) := by
  by_cases parts : ∃ body sig, Parts token body sig
  · obtain ⟨body, sig, parts⟩ := parts
    have is_ := env.signed_of_parts parts
    cases decoded : Base64.decodePadded sig with
    | none =>
      rw [decoded] at is_
      exact .inr (.inl ⟨is_, body, sig, parts, decoded⟩)
    | some bytes =>
      rw [decoded] at is_
      dsimp only at is_
      by_cases same : env.mac body = bytes
      · rw [← same] at decoded
        obtain ⟨i, issued, rfl⟩ := promised body sig parts decoded
        rw [if_neg (not_not.mpr same), Base64.decodePadded_encode, Option.bind_some,
          (kept.written i issued).readBack] at is_
        exact .inr (.inr ⟨sig, i, issued, parts, decoded, is_⟩)
      · rw [if_pos same] at is_
        refine .inl ⟨is_, fun body' sig' parts' => ?_⟩
        obtain ⟨rfl, rfl⟩ := parts.unique parts'
        exact ⟨bytes, decoded, same⟩
  · exact .inl ⟨env.signed_of_no_parts fun body sig here => parts ⟨body, sig, here⟩,
      fun body sig here => absurd ⟨body, sig, here⟩ parts⟩

theorem signed_access (kept : h.Kept env) (issued : .issued i ∈ h.log) :
    env.signed i.access = .ok (some i.payload) := by
  have written := kept.written i issued
  rw [written.access, env.signed_of_parts (parts_accessToken i.payload), Base64.decodePadded_encode]
  dsimp only
  rw [if_neg (not_not.mpr rfl), Base64.decodePadded_encode, Option.bind_some, written.readBack]

theorem withServer_same (kept : h.Kept env) : { h with held := false, server := h.server } = h := by
  obtain ⟨held, server, codes, refreshTokens, log⟩ := h
  obtain rfl : held = false := kept.free
  rfl

theorem step_verify_none (kept : h.Kept env)
    (signed : env.signed token = .ok none) :
    h.step env (.verify token now) = some (h.note (.verified token now (.ok none))) := by
  rw [TaskHistory.step, TaskHistory.after, kept.free, TaskServerOAuth.verify, signed]
  show some (TaskHistory.note _ { h with held := false, server := h.server }) = _
  rw [kept.withServer_same]

theorem step_verify_error (kept : h.Kept env) {error : TaskError}
    (signed : env.signed token = .error error) :
    h.step env (.verify token now) = some (h.note (.verified token now (.error error))) := by
  rw [TaskHistory.step, TaskHistory.after, kept.free, TaskServerOAuth.verify, signed]
  show some (TaskHistory.note _ { h with held := false, server := h.server }) = _
  rw [kept.withServer_same]

theorem step_verify_some (kept : h.Kept env) {p : Payload}
    (signed : env.signed token = .ok (some p)) (aud : p.aud = env.resource) :
    h.step env (.verify token now) =
      some (h.note (.verified token now (.ok (if (p.exp : ℚ) < now then none else some p)))) := by
  have unrevoked : ((h.server.store.live now).revoked.get? p.jti).isSome = false := by
    rw [kept.live_revoked now]
    rfl
  have call : TaskServerOAuth.verify env token now (false, h.server) =
      (.returned (if (p.exp : ℚ) < now then none else some p), (false, h.server)) := by
    rw [TaskServerOAuth.verify, signed]
    dsimp only
    by_cases ended : (p.exp : ℚ) < now
    · rw [if_pos (.inl ended), if_pos ended]
      rfl
    · rw [if_neg (not_or.mpr ⟨ended, not_not.mpr aud⟩), if_neg ended]
      show (Outcome.returned (if ((h.server.store.live now).revoked.get? p.jti).isSome then none
        else some p), (false, h.server)) = _
      rw [unrevoked, if_neg (by simp)]
  rw [TaskHistory.step, TaskHistory.after, kept.free, call]
  show some (TaskHistory.note _ { h with held := false, server := h.server }) = _
  rw [kept.withServer_same]

theorem step_revoke_none (kept : h.Kept env)
    (answer : verified env token now (true, h.server) = (.returned none, (true, h.server))) :
    h.step env (.revokeToken token now) = some (TaskHistory.note (.revoked token)
      { h with
        held := false
        server := { h.server with store := {
          refresh := (h.server.store.live now).refresh.pop (env.hash token)
          revoked := (h.server.store.live now).revoked } } }) := by
  have call := LockM.withLock_returned ((revoke_under env token now h.server).trans
    (LockM.bind_of_returned answer))
  rw [TaskHistory.step, TaskHistory.after, kept.free, revokeToken_eq, call]

theorem step_revoke_error (kept : h.Kept env) {error : TaskError}
    (answer : verified env token now (true, h.server) = (.raised error, (true, h.server))) :
    h.step env (.revokeToken token now) = some (h.note (.verified token now (.error error))) := by
  have call := LockM.withLock_raised ((revoke_under env token now h.server).trans
    (LockM.bind_of_raised answer))
  rw [TaskHistory.step, TaskHistory.after, kept.free, revokeToken_eq, call]
  show some (TaskHistory.note _ { h with held := false, server := h.server }) = _
  rw [kept.withServer_same]

theorem step_revoke_blocked (kept : h.Kept env)
    (answer : verified env token now (true, h.server) = (.blocked, (true, h.server))) :
    h.step env (.revokeToken token now) = some { h with held := true, log := .blocked :: h.log } := by
  have call := LockM.withLock_blocked ((revoke_under env token now h.server).trans
    (LockM.bind_of_blocked answer))
  rw [TaskHistory.step, TaskHistory.after, kept.free, revokeToken_eq, call]

theorem accepts_signed (kept : h.Kept env) {p : Payload}
    (accepts : Accepts h.log token now p) : env.signed token = .ok (some p) := by
  obtain ⟨⟨i, issued, rfl, rfl⟩, -⟩ := accepts
  exact kept.signed_access issued

theorem token_eq_access (kept : h.Kept env)
    (issued : .issued i ∈ h.log)
    (parts : Parts token (Base64.encode (env.dumps i.payload))
      (Base64.encode (env.mac (Base64.encode (env.dumps i.payload))))) : token = i.access := by
  rw [parts.token_eq, (kept.written i issued).access, OauthEnv.accessToken]

theorem payload_eq (kept : h.Kept env) {i j : TokenIssue Hash} (mine : .issued i ∈ h.log)
    (other : .issued j ∈ h.log)
    (same : Base64.encode (env.dumps i.payload) = Base64.encode (env.dumps j.payload)) :
    i.payload = j.payload := by
  have bytes : env.dumps i.payload = env.dumps j.payload := by
    have decoded := congrArg Base64.decodePadded same
    rw [Base64.decodePadded_encode, Base64.decodePadded_encode] at decoded
    exact Option.some.inj decoded
  have read := (kept.written i mine).readBack
  rw [bytes, (kept.written j other).readBack] at read
  exact (Option.some.inj read).symm

theorem verify (kept : h.Kept env)
    (promised : h.Promised env (.verify token now)) (clean : h.Clean env (.verify token now))
    (taken : h.step env (.verify token now) = some h') : h'.Kept env := by
  obtain ⟨none_, -⟩ | ⟨-, body, sig, parts, undecoded⟩ | ⟨sig, i, issued, parts, decoded, signed⟩ :=
    kept.signed_cases promised
  · rw [kept.step_verify_none none_, Option.some.injEq] at taken
    subst taken
    refine kept.note ⟨none, rfl, fun p => ⟨nofun, fun accepts => ?_⟩⟩ fun _ same => nomatch same
    have some_ := kept.accepts_signed accepts
    rw [none_] at some_
    nomatch some_
  · obtain ⟨bytes, decoded, -⟩ := clean.1 body sig parts
    rw [undecoded] at decoded
    nomatch decoded
  · have aud := (kept.written i issued).aud
    rw [kept.step_verify_some signed aud, Option.some.injEq] at taken
    subst taken
    refine kept.note ⟨_, rfl, fun p => ?_⟩ fun _ same => nomatch same
    by_cases ended : (i.payload.exp : ℚ) < now
    · rw [if_pos ended]
      refine ⟨nofun, fun accepts => ?_⟩
      have same := kept.accepts_signed accepts
      rw [signed] at same
      cases Except.ok.inj same
      exact absurd ended accepts.2.1
    · rw [if_neg ended]
      constructor
      · intro same
        cases same
        -- the signature is written as the server writes it, so that the text is the token
        obtain ⟨bytes, decoded', canonical⟩ := clean.1 _ sig parts
        obtain rfl : bytes = _ := Option.some.inj (decoded'.symm.trans decoded)
        cases canonical rfl with
        | inr expired => exact absurd (expired i issued rfl) ended
        | inl written =>
          rw [written] at parts
          have same := kept.token_eq_access issued parts
          exact ⟨⟨i, issued, same.symm, rfl⟩, ended,
            fun revoked => ended (clean.2 revoked i issued same.symm)⟩
      · intro accepts
        have same := kept.accepts_signed accepts
        rw [signed] at same
        exact Except.ok.inj same

/-- What `revoke_token` verifies, of what is no token of the server, or of one that expired. -/
theorem verified_none (kept : h.Kept env)
    (promised : h.Promised env (.revokeToken token now)) (clean : h.Clean env (.revokeToken token now)) :
    verified env token now (true, h.server) = (.returned none, (true, h.server)) := by
  unfold verified
  split_ifs with start
  · rw [TaskServerOAuth.verify]
    obtain ⟨none_, -⟩ | ⟨-, body, sig, parts, undecoded⟩ | ⟨sig, i, issued, parts, decoded, signed⟩ :=
      kept.signed_cases promised
    · rw [none_]
      rfl
    · obtain ⟨bytes, decoded, -⟩ := clean body sig parts
      rw [undecoded] at decoded
      nomatch decoded
    · rw [signed]
      obtain ⟨bytes, decoded', expired⟩ := clean _ sig parts
      obtain rfl : bytes = _ := Option.some.inj (decoded'.symm.trans decoded)
      dsimp only
      rw [if_pos (.inl (expired rfl i issued rfl))]
      rfl
  · rfl

theorem revokeToken (kept : h.Kept env)
    (promised : h.Promised env (.revokeToken token now)) (clean : h.Clean env (.revokeToken token now))
    (taken : h.step env (.revokeToken token now) = some h') : h'.Kept env := by
  rw [kept.step_revoke_none (kept.verified_none promised clean), Option.some.injEq] at taken
  subst taken
  have stored := kept.withServer { h.server with store := {
      refresh := (h.server.store.live now).refresh.pop (env.hash token)
      revoked := (h.server.store.live now).revoked } } (fun _ _ here => here)
    (fun _ _ here => of_live (Dict.get?_pop_eq_some.mp here).1) (kept.live_revoked now)
  exact stored.note trivial fun _ same => nomatch same

theorem step (kept : h.Kept env) {ev : TaskEvent} (promised : h.Promised env ev)
    (clean : h.Clean env ev) (taken : h.step env ev = some h') : h'.Kept env := by
  cases ev with
  | authorize => exact kept.authorize taken
  | consentSubmit => exact kept.consentSubmit promised taken
  | loadAuthorizationCode => exact kept.loadAuthorizationCode taken
  | exchangeAuthorizationCode => exact kept.exchangeAuthorizationCode promised taken
  | loadRefreshToken => exact kept.loadRefreshToken taken
  | exchangeRefreshToken => exact kept.exchangeRefreshToken promised taken
  | verify => exact kept.verify promised clean taken
  | revokeToken => exact kept.revokeToken promised clean taken

theorem clean_verify (kept : h.Kept env) (issued : .issued i ∈ h.log)
    (unrevoked : .revoked i.access ∉ h.log) (now : Time) : h.Clean env (.verify i.access now) := by
  refine ⟨fun body sig parts => ?_, fun revoked => absurd revoked unrevoked⟩
  rw [(kept.written i issued).access] at parts
  obtain ⟨rfl, rfl⟩ := (parts_accessToken i.payload).unique parts
  exact ⟨_, Base64.decodePadded_encode _, fun _ => .inl rfl⟩

omit [DecidableEq Hash] in
theorem right_of_lawful {r : TaskRecord Hash} (lawful : (h.note r).Lawful) : r.Right h.log :=
  (eachAfter_cons.mp lawful.records).1

theorem verify_breaks (kept : h.Kept env)
    (promised : h.Promised env (.verify token now)) (unclean : ¬h.Clean env (.verify token now))
    (taken : h.step env (.verify token now) = some h') : ¬h'.Lawful := by
  intro lawful
  apply unclean
  obtain ⟨none_, other⟩ | ⟨failed, -⟩ | ⟨sig, i, issued, parts, decoded, signed⟩ :=
    kept.signed_cases promised
  · refine ⟨fun body sig parts => ?_, fun _ i issued same => ?_⟩
    · obtain ⟨bytes, decoded, wrong⟩ := other body sig parts
      exact ⟨bytes, decoded, fun right => absurd right wrong⟩
    · have signed := kept.signed_access issued
      rw [same, none_] at signed
      nomatch signed
  · rw [kept.step_verify_error failed, Option.some.injEq] at taken
    subst taken
    obtain ⟨result, same, -⟩ := right_of_lawful lawful
    nomatch same
  · rw [kept.step_verify_some signed (kept.written i issued).aud, Option.some.injEq] at taken
    subst taken
    obtain ⟨result, same, exact_⟩ := right_of_lawful lawful
    cases same
    have mine : ∀ j, .issued j ∈ h.log → j.access = token → j.payload = i.payload := by
      intro j other same
      have signed' := kept.signed_access other
      rw [same, signed] at signed'
      exact (Option.some.inj (Except.ok.inj signed')).symm
    by_cases ended : (i.payload.exp : ℚ) < now
    · refine ⟨fun body sig' parts' => ?_, fun _ j other same => mine j other same ▸ ended⟩
      obtain ⟨rfl, rfl⟩ := parts.unique parts'
      refine ⟨_, decoded, fun _ => .inr fun j other same => ?_⟩
      exact kept.payload_eq issued other same ▸ ended
    · obtain ⟨⟨j, other, rfl, same⟩, -, unrevoked⟩ := (exact_ i.payload).mp (if_neg ended)
      refine ⟨fun body sig' parts' => ?_, fun revoked => absurd revoked unrevoked⟩
      obtain ⟨rfl, rfl⟩ := parts.unique parts'
      refine ⟨_, decoded, fun _ => .inl ?_⟩
      rw [(kept.written j other).access, same] at parts
      exact ((parts_accessToken i.payload).unique parts).2.symm

/-- What `revoke_token` verifies, of a token that did not expire, takes the lock that is held. -/
theorem verified_blocked (kept : h.Kept env)
    (issued : .issued i ∈ h.log) (start : "fsat.".toList.isPrefixOf token = true)
    (signed : env.signed token = .ok (some i.payload)) (fresh : ¬(i.payload.exp : ℚ) < now) :
    verified env token now (true, h.server) = (.blocked, (true, h.server)) := by
  rw [verified, if_pos start, TaskServerOAuth.verify, signed]
  dsimp only
  rw [if_neg (not_or.mpr ⟨fresh, not_not.mpr (kept.written i issued).aud⟩)]
  rfl

theorem revokeToken_breaks (kept : h.Kept env)
    (promised : h.Promised env (.revokeToken token now))
    (unclean : ¬h.Clean env (.revokeToken token now))
    (taken : h.step env (.revokeToken token now) = some h') : ¬h'.Lawful := by
  intro lawful
  apply unclean
  intro body sig parts
  obtain ⟨-, other⟩ | ⟨failed, -⟩ | ⟨sig', i, issued, parts', decoded, signed⟩ :=
    kept.signed_cases promised
  · obtain ⟨bytes, decoded, wrong⟩ := other body sig parts
    exact ⟨bytes, decoded, fun right => absurd right wrong⟩
  · have raises : verified env token now (true, h.server) =
        (.raised .malformed, (true, h.server)) := by
      rw [verified, if_pos parts.isPrefixOf, TaskServerOAuth.verify, failed]
      rfl
    rw [kept.step_revoke_error raises, Option.some.injEq] at taken
    subst taken
    obtain ⟨result, same, -⟩ := right_of_lawful lawful
    nomatch same
  · obtain ⟨rfl, rfl⟩ := parts'.unique parts
    refine ⟨_, decoded, fun _ j other same => ?_⟩
    rw [← kept.payload_eq issued other same]
    by_contra fresh
    have blocks := kept.verified_blocked issued parts.isPrefixOf signed fresh
    rw [kept.step_revoke_blocked blocks, Option.some.injEq] at taken
    subst taken
    exact (eachAfter_cons.mp lawful.records).1

theorem breaks (kept : h.Kept env) {ev : TaskEvent} (promised : h.Promised env ev)
    (unclean : ¬h.Clean env ev) (taken : h.step env ev = some h') : ¬h'.Lawful := by
  cases ev with
  | verify => exact kept.verify_breaks promised unclean taken
  | revokeToken => exact kept.revokeToken_breaks promised unclean taken
  | _ => exact absurd trivial unclean

end TaskHistory.Kept

/-! ## Runs -/

/-- The server before anything was done. -/
def TaskHistory.initial : TaskHistory Hash := ⟨false, {}, [], [], []⟩

omit [DecidableEq Hash] in
theorem TaskHistory.initial_lawful : (initial : TaskHistory Hash).Lawful where
  records := eachAfter_nil
  granted _ mem := nomatch mem

theorem TaskHistory.initial_kept (env : OauthEnv Hash) :
    (initial : TaskHistory Hash).Kept env where
  toLawful := initial_lawful
  free := rfl
  stored _ _ here := nomatch here
  loaded _ mem := nomatch mem
  storedRefresh _ _ here := nomatch here
  loadedRefresh _ mem := nomatch mem
  unrevoked := rfl
  written _ mem := nomatch mem

/-- In a run from the beginning the law holds at each moment exactly if each call is clean. -/
theorem TaskHistory.lawful_iff (env : OauthEnv Hash)
    (run : Run (fun h => TaskHistory.step env h) (Promised env)) (begins : run.states 0 = initial) :
    (∀ n, (run.states n).Lawful) ↔
      ∀ n ev, run.events n = some ev → (run.states n).Clean env ev := by
  refine run.holds_iff (Kept env) Lawful (Clean env) (begins ▸ initial_kept env)
    (fun _ kept => kept.toLawful) ?_ ?_
  · exact fun _ _ _ kept promised clean taken => kept.step promised clean taken
  · exact fun _ _ _ kept promised unclean taken => kept.breaks promised unclean taken

end

namespace TaskHistory

/-- The console asks for the only scope. -/
def consoleParams : AuthorizationParams where
  scopes := some [taskScope]
  state := some "s1".toList
  codeChallenge := "challenge".toList
  redirectUri := "http://127.0.0.1:8600/oauth/callback".toList
  redirectUriProvidedExplicitly := true
  resource := some "http://127.0.0.1:8800/mcp".toList

def consolePayload : Payload where
  jti := "k3VqN0x8Yp2LrT5a".toList
  cid := "freeswarm".toList
  scp := [taskScope]
  exp := 4620
  aud := "http://127.0.0.1:8800/mcp".toList
  iat := 1020

def consoleBytes : List UInt8 :=
  ("\x7b\"jti\":\"k3VqN0x8Yp2LrT5a\",\"cid\":\"freeswarm\",\"scp\":[\"tasks\"],\"exp\":4620," ++
    "\"aud\":\"http://127.0.0.1:8800/mcp\",\"iat\":1020\x7d").toList.map fun c => .ofNat c.toNat

/-- A server whose key is the bytes from 0 to 31. -/
def consoleEnv : OauthEnv Text where
  baseUrl := "http://127.0.0.1:8800".toList
  mac body := if body = Base64.encode consoleBytes then
    [5, 54, 61, 165, 45, 111, 177, 67, 190, 152, 229, 152, 151, 33, 183, 209, 28, 198, 179, 78, 163,
      105, 12, 215, 82, 67, 131, 148, 51, 187, 37, 191] else []
  dumps p := if p = consolePayload then consoleBytes else []
  loads bytes := if bytes = consoleBytes then some consolePayload else none
  hash text := if text = "R7w".toList then
    "1b2d792a89de18e40d5c45ab23da146b28a6ba0a591ea50141cd5f42cd05100e".toList else text
  approves text := text = "open sesame".toList

def consoleCode : AuthorizationCode :=
  Consent.code ⟨1600, "freeswarm".toList, consoleParams⟩ 1010 "c1".toList

def consoleIssue : TokenIssue Text where
  source := .code "c1".toList
  scopes := [taskScope]
  payload := consolePayload
  access := consoleEnv.accessToken consolePayload
  refresh := consoleEnv.hash "R7w".toList

def consoleAsked : TaskHistory Text where
  held := false
  server := { consents := Dict.empty.set "t1".toList ⟨1600, "freeswarm".toList, consoleParams⟩ }
  codes := []
  refreshTokens := []
  log := []

/-- The operator approved the request. -/
def consoleGranted : TaskHistory Text where
  held := false
  server := { codes := Dict.empty.set "c1".toList consoleCode }
  codes := []
  refreshTokens := []
  log := [.granted consoleCode]

def consoleLoaded : TaskHistory Text := { consoleGranted with codes := [consoleCode] }

def consoleIssued : TaskHistory Text where
  held := false
  server := { store := {
    refresh := Dict.empty.set (consoleEnv.hash "R7w".toList)
      ⟨"freeswarm".toList, [taskScope], 1020 + refreshTtl⟩ } }
  codes := [consoleCode]
  refreshTokens := []
  log := [.issued consoleIssue, .granted consoleCode]

theorem console_asks : step consoleEnv initial
    (.authorize "t1".toList 1000 "freeswarm".toList consoleParams) = some consoleAsked := by
  with_unfolding_all rfl

theorem console_approves : consoleAsked.step consoleEnv
    (.consentSubmit "t1".toList "open sesame".toList "approve".toList 1010 "c1".toList) =
      some consoleGranted := by
  with_unfolding_all rfl

theorem console_loads : consoleGranted.step consoleEnv
    (.loadAuthorizationCode "freeswarm".toList "c1".toList 1020) = some consoleLoaded := by
  with_unfolding_all rfl

theorem console_exchanges : consoleLoaded.step consoleEnv
    (.exchangeAuthorizationCode "freeswarm".toList consoleCode 1020 "k3VqN0x8Yp2LrT5a".toList
      "R7w".toList) = some consoleIssued := by
  with_unfolding_all rfl

theorem console_promised : consoleLoaded.Promised consoleEnv
    (.exchangeAuthorizationCode "freeswarm".toList consoleCode 1020 "k3VqN0x8Yp2LrT5a".toList
      "R7w".toList) := by
  refine ⟨fun i mem => ?_, by decide +kernel⟩
  cases mem with
  | tail _ mem => nomatch mem

/-- What comes behind the issue of the pair is a run from the beginning. -/
def consoleRun (run : Run (fun h => step consoleEnv h) (Promised consoleEnv))
    (begins : run.states 0 = consoleIssued) : Run (fun h => step consoleEnv h) (Promised consoleEnv) :=
  .cons console_asks trivial
    (.cons console_approves (fun _ mem => nomatch mem)
      (.cons console_loads trivial (.cons console_exchanges console_promised run begins) rfl) rfl) rfl

theorem console_body {body sig : Text} (parts : Parts consoleIssue.access body sig) :
    ∃ i, .issued i ∈ consoleIssued.log ∧ body = Base64.encode (consoleEnv.dumps i.payload) :=
  ⟨consoleIssue, List.mem_cons_self, (parts.unique (parts_accessToken consolePayload)).1⟩

/-- Its access token is verified before its end. -/
def consoleVerified : TaskHistory Text :=
  consoleIssued.note (.verified consoleIssue.access 4000 (.ok (some consolePayload)))

theorem consoleIssued_kept : consoleIssued.Kept consoleEnv := by
  have asked := (initial_kept consoleEnv).authorize console_asks
  have granted := asked.consentSubmit (fun _ mem => nomatch mem) console_approves
  have loaded := granted.loadAuthorizationCode console_loads
  exact loaded.exchangeAuthorizationCode console_promised console_exchanges

/-- The token is read before its end. -/
theorem console_fresh : ¬(consoleIssue.payload.exp : ℚ) < 4000 := by
  have ends : consoleIssue.payload.exp = 4620 := rfl
  rw [ends]
  decide

theorem console_verifies : consoleIssued.step consoleEnv (.verify consoleIssue.access 4000) =
    some consoleVerified := by
  have issued : .issued consoleIssue ∈ consoleIssued.log := List.mem_cons_self
  rw [consoleIssued_kept.step_verify_some (consoleIssued_kept.signed_access issued)
    (consoleIssued_kept.written _ issued).aud, if_neg console_fresh]
  rfl

theorem consoleVerified_lawful : consoleVerified.Lawful := by
  let run := consoleRun (.cons console_verifies (fun _ _ parts _ => console_body parts)
    (.idle consoleVerified) rfl) rfl
  refine (lawful_iff consoleEnv run rfl).mpr ?_ 5
  intro n ev event
  match n with
  | 0 | 1 | 2 | 3 =>
    cases event
    trivial
  | 4 =>
    cases event
    exact consoleIssued_kept.clean_verify List.mem_cons_self (by simp [consoleIssued]) 4000
  | n + 5 => nomatch event

/-- The access token is revoked before its end: the call never returns. -/
theorem consoleRevoke_blocks :
    ∃ run : Run (fun h => step consoleEnv h) (Promised consoleEnv), run.states 0 = initial ∧
      run.events 4 = some (.revokeToken consoleIssue.access 4000) ∧
      .blocked ∈ (run.states 5).log ∧ ¬(run.states 5).Lawful := by
  have kept := consoleIssued_kept
  have issued : .issued consoleIssue ∈ consoleIssued.log := List.mem_cons_self
  have blocks := kept.step_revoke_blocked (kept.verified_blocked issued
    (parts_accessToken consolePayload).isPrefixOf (kept.signed_access issued) console_fresh)
  refine ⟨consoleRun (.cons blocks (fun _ _ parts _ => console_body parts) (.idle _) rfl) rfl,
    rfl, rfl, List.mem_cons_self, fun lawful => ?_⟩
  exact (eachAfter_cons.mp lawful.records).1

end TaskHistory

end FreeSwarm.TaskKit
