import ApiStarter.AccessControl
import ApiStarter.ApiKeyLimit

/-!
# API keys from creation to revocation

A key is created with a session of its owner.  Its hash, scope and expiry never
change, and it is revoked for good.  A request that presents a key gets past the
extractor only if it looked the key up before any revocation, before it expired,
and found the owner active.
-/

namespace ApiStarter

open Interleave Interleave.Prog Relational

/-! ## The life of a row -/

/-- The key as it was created. -/
def ApiKey.issued (key : ApiKey) : ApiKey := { key with lastUsedAt := none, revokedAt := none }

@[simp] theorem NewApiKey.issued_row (new : NewApiKey) (id : Uuid) :
    (new.row id).issued = new.row id := rfl

def keyIs (id : Uuid) (p : ApiKey → Prop) (s : KeyServer) : Prop :=
  ∃ key, s.db.apiKeys.get? id = some key ∧ p key

/-- The statement revokes the key. -/
def RevokesKey (id : Uuid) (e : KeyEvent) : Prop :=
  e.Ran fun q s ↦ ∃ userId, q = .keys (.revoke userId id) ∧ keyIs id (·.isActiveOf userId = true) s

section Rows

variable {cx : Context} {id : Uuid} {key : ApiKey} {s : KeyServer}

/-- The statement that revokes a key, as far as it concerns this one. -/
def ApiKey.revokeBy (userId id : Uuid) (now : Time) (key : ApiKey) : ApiKey :=
  if decide (key.id = id) && key.isActiveOf userId then { key with revokedAt := some now } else key

theorem ApiKey.issued_revokeBy (userId id : Uuid) (now : Time) (key : ApiKey) :
    (key.revokeBy userId id now).issued = key.issued := by
  unfold ApiKey.revokeBy
  split <;> rfl

theorem ApiKey.revokedAt_revokeBy (userId id : Uuid) (now : Time) (key : ApiKey) :
    (key.revokeBy userId id now).revokedAt = key.revokedAt ∨ (userId = key.userId ∧ id = key.id) ∧
      key.revokedAt = none ∧ (key.revokeBy userId id now).revokedAt = some now := by
  unfold ApiKey.revokeBy
  split
  next hmine =>
    simp only [ApiKey.isActiveOf, Bool.and_eq_true, decide_eq_true_eq,
      Option.isNone_iff_eq_none] at hmine
    exact .inr ⟨⟨hmine.2.1.symm, hmine.1.symm⟩, hmine.2.2, rfl⟩
  next => exact .inl rfl

def ApiKeySql.onKey (key : ApiKey) : ApiKeySql → ApiKey
  | .findByHash _ => key
  | .touch id instant =>
      if decide (key.id = id) &&
          key.lastUsedAt.all (fun used ↦ used < instant - Time.minutes 1) then
        { key with lastUsedAt := some instant }
      else key

theorem ApiKeySql.get?_run (keys : Table ApiKey.id) (q : ApiKeySql) :
    (q.run keys).2.get? id = (keys.get? id).map fun key ↦ q.onKey key := by
  cases q with
  | findByHash => simp [ApiKeySql.run, ApiKeySql.onKey]
  | touch touched instant =>
      simp only [ApiKeySql.run, Table.get?_updateWhere]
      rfl

theorem ApiKeySql.onKey_kept (key : ApiKey) (q : ApiKeySql) :
    (q.onKey key).issued = key.issued ∧ (q.onKey key).revokedAt = key.revokedAt := by
  cases q with
  | findByHash => exact ⟨rfl, rfl⟩
  | touch =>
      simp only [ApiKeySql.onKey]
      constructor <;> split <;> rfl

theorem get?_revoke (userId revoked : Uuid) (s : KeyServer) :
    ((keyMachine cx).exec (.keys (.revoke userId revoked)) s).2.db.apiKeys.get? id =
      (s.db.apiKeys.get? id).map (ApiKey.revokeBy userId revoked s.now) := by
  simp only [keyMachine, KeyStatement.exec, KeySql.run, Table.get?_updateWhere]
  rfl

variable (cx) in
/-- What any statement makes of a key that is there. -/
theorem apiKey_exec (hget : s.db.apiKeys.get? id = some key) (q : KeyStatement) :
    ∃ key', ((keyMachine cx).exec q s).2.db.apiKeys.get? id = some key' ∧
      key'.issued = key.issued ∧ (key'.revokedAt = key.revokedAt ∨
        q = .keys (.revoke key.userId id) ∧ key.revokedAt = none ∧
          key'.revokedAt = some s.now) := by
  have hkept : ∃ key', s.db.apiKeys.get? id = some key' ∧ key'.issued = key.issued ∧
      (key'.revokedAt = key.revokedAt ∨ q = .keys (.revoke key.userId id) ∧
        key.revokedAt = none ∧ key'.revokedAt = some s.now) := ⟨key, hget, rfl, .inl rfl⟩
  cases q with
  | base q =>
      cases q with
      | sql q =>
          cases q with
          | apiKeys q =>
              obtain ⟨hissued, hrevoked⟩ := q.onKey_kept key
              refine ⟨q.onKey key, ?_, hissued, .inl hrevoked⟩
              exact (q.get?_run _).trans (by rw [hget, Option.map_some])
          | _ => exact hkept
      | _ => exact hkept
  | keys q =>
      cases q with
      | insert inserted new =>
          simp only [keyMachine, KeyStatement.exec, KeySql.run]
          split
          · exact hkept
          split
          · exact hkept
          next apiKeys hinsert =>
            obtain ⟨hnone, hget'⟩ := Table.insert?_eq_some hinsert
            have hother : (new.row inserted).id ≠ id := by
              rintro rfl
              simp [hget] at hnone
            exact ⟨key, by simp [hget', hother, hget], rfl, .inl rfl⟩
      | listActive => exact hkept
      | revoke userId revoked =>
          refine ⟨key.revokeBy userId revoked s.now, ?_, ?_, ?_⟩
          · rw [get?_revoke, hget, Option.map_some]
          · exact key.issued_revokeBy userId revoked s.now
          · obtain rfl := Table.key_of_get? hget
            refine (key.revokedAt_revokeBy userId revoked s.now).imp_right ?_
            rintro ⟨⟨rfl, rfl⟩, hbefore, hafter⟩
            exact ⟨rfl, hbefore, hafter⟩

/-- Keys come from `create` only. -/
theorem apiKey_exec_none (hnone : s.db.apiKeys.get? id = none) (q : KeyStatement)
    (hget : ((keyMachine cx).exec q s).2.db.apiKeys.get? id = some key) :
    ∃ new, q = .keys (.insert id new) ∧ key = new.row id := by
  have hsame : s.db.apiKeys.get? id ≠ some key := by simp [hnone]
  cases q with
  | base q =>
      cases q with
      | sql q =>
          cases q with
          | apiKeys q => exact absurd (hget.symm.trans (q.get?_run _)) (by simp [hnone])
          | _ => exact absurd hget hsame
      | _ => exact absurd hget hsame
  | keys q =>
      cases q with
      | insert inserted new =>
          simp only [keyMachine, KeyStatement.exec, KeySql.run] at hget
          split at hget
          · exact absurd hget hsame
          split at hget
          · exact absurd hget hsame
          next apiKeys hinsert =>
            obtain ⟨-, hget'⟩ := Table.insert?_eq_some hinsert
            by_cases hid : inserted = id
            · subst hid
              exact ⟨new, rfl, by simpa [hget', NewApiKey.row, eq_comm] using hget⟩
            · exact absurd (by simpa [hget', NewApiKey.row, hid] using hget) hsame
      | listActive => exact absurd hget hsame
      | revoke userId revoked =>
          simp [get?_revoke, hnone] at hget

theorem keyIs_issued_lasts (key : ApiKey) (q : KeyStatement) (s : KeyServer)
    (h : keyIs id (·.issued = key.issued) s) :
    keyIs id (·.issued = key.issued) ((keyMachine cx).exec q s).2 := by
  obtain ⟨row, hget, hsame⟩ := h
  obtain ⟨row', hget', hissued, -⟩ := apiKey_exec cx hget q
  exact ⟨row', hget', hissued.trans hsame⟩

/-- A key is revoked for good, and the time of it stays. -/
theorem keyIs_revoked_lasts (instant : Time) (q : KeyStatement) (s : KeyServer)
    (h : keyIs id (·.revokedAt = some instant) s) :
    keyIs id (·.revokedAt = some instant) ((keyMachine cx).exec q s).2 := by
  obtain ⟨row, hget, hrevoked⟩ := h
  obtain ⟨row', hget', -, hstays | ⟨-, hnone, -⟩⟩ := apiKey_exec cx hget q
  · exact ⟨row', hget', hstays.trans hrevoked⟩
  · simp [hrevoked] at hnone

theorem RevokesKey.made {e : KeyEvent} (h : RevokesKey id e) : e.Ran fun q s ↦
    keyIs id (·.revokedAt = some e.store.now) ((keyMachine cx).exec q s).2 := by
  cases e with
  | answered => exact h.elim
  | ran i k q b =>
      obtain ⟨userId, rfl, row, hget, hactive⟩ := h
      refine ⟨row.revokeBy userId id b.now, by rw [get?_revoke, hget, Option.map_some], ?_⟩
      simp [ApiKey.revokeBy, Table.key_of_get? hget, hactive]

end Rows

/-! ## Past the extractor -/

/-- What the extractors run. -/
def Statement.ofExtractor : Statement → Bool
  | .clock | .sql (.apiKeys _) | .sql (.users (.findById _)) => true
  | _ => false

/-- A request with an API key has shown a usable one. -/
def KeyShown (cx : Context) (k : Request) (own : List AppEvent) : Prop :=
  ∀ raw, k.caller? = some (.apiKey raw) → ∃ u, KeyOf cx k u own

/-- What is run after the extractors is run with a usable key, if with a key at all. -/
def PastExtractor (cx : Context) (e : AppEvent) (own : List AppEvent) : Prop :=
  e.Ran fun q _ ↦ q.ofExtractor = false → KeyShown cx e.request own

theorem only_ofExtractor_authUser (cx : Context) (caller : Presented) (isSafe : Bool) :
    (authUser cx caller isSafe).Only (·.ofExtractor = true) := by
  cases caller with
  | bearer claims => simp [authUser, verifySession, Statement.ofExtractor]
  | apiKey raw =>
      exact .bind (by simp [authenticateApiKey, Statement.ofExtractor]) fun _ ↦ by simp

section Extractor

variable {cx : Context} {i : ℕ} {k : Request} {caller : Presented} {own : List AppEvent}

theorem KeyShown.mono {own' : List AppEvent} (h : KeyShown cx k own) (hown : own ⊆ own') :
    KeyShown cx k own' := fun raw hraw ↦ (h raw hraw).imp fun _ hkey ↦ hkey.mono hown

theorem keyShown_of_speaksFor {u : Uuid} (h : SpeaksFor cx k u own) : KeyShown cx k own := by
  intro raw hraw
  rcases h with ⟨claims, hclaims, -⟩ | hkey
  · simp [hraw] at hclaims
  · exact ⟨u, hkey⟩

/-- What follows once the key was shown. -/
theorem traced_keyShown {α ε : Type} (p : Prog Statement.Res ε α) (h : KeyShown cx k own) :
    Traced (machine cx) (PastExtractor cx) i k p (fun _ own' ↦ KeyShown cx k own')
      (fun _ _ ↦ True) own :=
  (traced_of_only (S := fun _ ↦ True) (A := KeyShown cx k) (only_true p) (returns_true p)
    (fun _ _ _ _ h ↦ ⟨fun _ ↦ h, h.mono (List.subset_cons_self _ _)⟩) h).mono
      (fun _ _ h ↦ h.2) fun _ _ _ ↦ trivial

theorem traced_pastAuthUser (hk : k.caller? = some caller) :
    Traced (machine cx) (PastExtractor cx) i k (authUser cx caller false)
      (fun _ own' ↦ KeyShown cx k own') (fun _ _ ↦ True) own := by
  apply Traced.of_only (S := (·.ofExtractor = true)) (P := Warranted cx)
  · exact traced_authUser_warranted hk fun _ _ _ h _ _ ↦ keyShown_of_speaksFor h
  · exact only_ofExtractor_authUser cx caller false
  · intro q hq s own' hnot
    simp [hq] at hnot

theorem traces_pastExtractor (cx : Context) (k : Request) (i : ℕ) :
    Traced (machine cx) (PastExtractor cx) i k (handle cx k) (fun _ own ↦ KeyShown cx k own)
      (fun _ _ ↦ True) [] := by
  have auth {caller : Presented} (hk : k.caller? = some caller) (f : AuthUser → Req Response) :
      Traced (machine cx) (PastExtractor cx) i k (authUser cx caller false >>= f)
        (fun _ own ↦ KeyShown cx k own) (fun _ _ ↦ True) [] :=
    traced_bind.mpr ((traced_pastAuthUser hk).mono (fun actor _ h ↦ traced_keyShown (f actor) h)
      fun _ _ _ ↦ trivial)
  have session {caller : Presented} (hk : k.caller? = some caller) (f : AuthUser → Req Response) :
      Traced (machine cx) (PastExtractor cx) i k (sessionUser cx caller false >>= f)
        (fun _ own ↦ KeyShown cx k own) (fun _ _ ↦ True) [] := by
    unfold sessionUser
    rw [Prog.bind_assoc]
    exact auth hk _
  have admin {caller : Presented} (hk : k.caller? = some caller) (f : AuthUser → Req Response) :
      Traced (machine cx) (PastExtractor cx) i k (adminUser cx caller false >>= f)
        (fun _ own ↦ KeyShown cx k own) (fun _ _ ↦ True) [] := by
    unfold adminUser
    rw [Prog.bind_assoc]
    exact auth hk _
  have keyless (hk : k.caller? = none) : KeyShown cx k [] := fun raw hraw ↦ by simp [hk] at hraw
  cases k with
  | updateProfile | resendVerification => exact auth rfl _
  | createUser | updateUser | deleteUser | inviteUser => exact admin rfl _
  | twoFactorSetup | twoFactorEnable | twoFactorDisable | changePassword | requestEmailChange
  | oauthLink | oauthUnlink | passkeyRegisterBegin | passkeyRegisterFinish | passkeyDelete
  | qrScan | qrApprove | qrReject => exact session rfl _
  | _ => exact traced_keyShown _ (keyless rfl)

end Extractor

/-! ## Requests where keys are created and revoked -/

def KeyRequest.caller? : KeyRequest → Option Presented
  | .createKey caller _ | .listKeys caller | .revokeKey caller _ => some caller
  | .app k => k.caller?

def appEvent? (k : Request) : KeyEvent → Option AppEvent
  | .ran i _ (.base q) s => some (.ran i k q s.toServer)
  | _ => none

/-- What the thread did in the rest of the application, for the request `k`. -/
def appEvents (k : Request) (own : List KeyEvent) : List AppEvent := own.filterMap (appEvent? k)

theorem exists_of_appEvents {k : Request} {own : List KeyEvent} {x : AppEvent}
    (hx : x ∈ appEvents k own) : ∃ e ∈ own, e.store.toServer = x.store := by
  obtain ⟨e, he, hview⟩ := List.mem_filterMap.mp hx
  refine ⟨e, he, ?_⟩
  unfold appEvent? at hview
  split at hview
  · cases hview
    rfl
  · cases hview

/-- The thread has presented a session that is accepted. -/
def KeySession (cx : Context) (claims : Claims) (own : List KeyEvent) : Prop :=
  (∃ e ∈ own, e.store.now.timestamp - jwtLeewaySecs ≤ claims.exp) ∧
    ∃ e ∈ own, accepts cx claims e.store.toServer = true

theorem keySession_of_signedIn {cx : Context} {claims : Claims} {k : Request} {own : List KeyEvent}
    (h : SignedIn cx claims (appEvents k own)) : KeySession cx claims own := by
  obtain ⟨⟨x, hx, hexp⟩, y, hy, haccepts⟩ := h
  obtain ⟨e, he, hstore⟩ := exists_of_appEvents hx
  obtain ⟨e', he', hstore'⟩ := exists_of_appEvents hy
  exact ⟨⟨e, he, by rwa [← hstore] at hexp⟩, e', he', by rwa [hstore']⟩

theorem KeySession.mono {cx : Context} {claims : Claims} {own own' : List KeyEvent}
    (h : KeySession cx claims own) (hown : own ⊆ own') : KeySession cx claims own' := by
  obtain ⟨⟨e, he, hexp⟩, e', he', haccepts⟩ := h
  exact ⟨⟨e, hown he, hexp⟩, e', hown he', haccepts⟩

/-- The key is the one that the request asks for. -/
structure Asked (cx : Context) (dto : CreateApiKeyDto) (new : NewApiKey) (own : List KeyEvent) :
    Prop where
  scope : new.scope = dto.scope.getD .read
  hash : ∃ n, new.keyHash = cx.sha256 (ApiKeysService.apiKeyPrefix ++ cx.randomToken n)
  expiry : dto.expiresInDays = none ∧ new.expiresAt = none ∨ ∃ days, dto.expiresInDays = some days ∧
    ∃ e ∈ own, new.expiresAt = some (e.store.now + Time.days days)

/-- The request got past the extractor: it runs something else, or succeeds. -/
def getsThrough : KeyEvent → Bool
  | .ran _ _ (.base q) _ => !q.ofExtractor
  | .ran _ _ (.keys _) _ => true
  | .answered _ _ (.ok _) _ => true
  | .answered _ _ (.error _) _ => false

/-- Keys are created with a session of the owner, and used where they are usable. -/
structure KeysSound (cx : Context) (e : KeyEvent) (own : List KeyEvent) : Prop where
  created : ∀ i k id new b, e = .ran i k (.keys (.insert id new)) b → ∃ claims dto,
    k = .createKey (.bearer claims) dto ∧ claims.sub = new.userId ∧ KeySession cx claims own ∧
      Asked cx dto new own
  revoked : ∀ i k userId id b, e = .ran i k (.keys (.revoke userId id)) b → ∃ claims,
    k = .revokeKey (.bearer claims) id ∧ claims.sub = userId ∧ KeySession cx claims own
  used : getsThrough e = true → ∀ raw, e.request.caller? = some (.apiKey raw) →
    ∃ k u, e.request = .app k ∧ KeyOf cx k u (appEvents k own)

/-- The statement makes or ends a key. -/
def KeySql.manages : KeySql → Prop
  | .listActive _ => False
  | _ => True

/-- An event at which no key is made or ended. -/
def ManagesNone (e : KeyEvent) : Prop := ∀ i k q b, e = .ran i k (.keys q) b → ¬q.manages

section Requests

variable {cx : Context} {i : ℕ} {k : KeyRequest} {own : List KeyEvent}

theorem managesNone_base (q : Statement) (s : KeyServer) : ManagesNone (.ran i k (.base q) s) := by
  rintro _ _ _ _ ⟨⟩

theorem managesNone_answered (a : Except AppError KeyResponse) (s : KeyServer) :
    ManagesNone (.answered i k a s) := by
  rintro _ _ _ _ ⟨⟩

theorem managesNone_listActive (u : Uuid) (s : KeyServer) :
    ManagesNone (.ran i k (.keys (.listActive u)) s) := by
  rintro _ _ _ _ ⟨⟩
  exact id

theorem KeysSound.of_none {e : KeyEvent} (he : ManagesNone e)
    (hused : getsThrough e = true → ∀ raw, e.request.caller? = some (.apiKey raw) →
      ∃ k u, e.request = .app k ∧ KeyOf cx k u (appEvents k own)) : KeysSound cx e own where
  created i k id new b heq := absurd trivial (he i k (.insert id new) b heq)
  revoked i k userId id b heq := absurd trivial (he i k (.revoke userId id) b heq)
  used := hused

theorem keysSound_of_bearer {claims : Claims} {e : KeyEvent}
    (hk : e.request.caller? = some (.bearer claims)) (he : ManagesNone e) : KeysSound cx e own :=
  .of_none he fun _ raw hraw ↦ by simp [hk] at hraw

theorem keysSound_error (e : AppError) (s : KeyServer) :
    KeysSound cx (.answered i k (.error e) s) own :=
  .of_none (managesNone_answered _ _) (by rintro ⟨⟩)

/-- What the extractors do is allowed to everyone. -/
theorem keysSound_ofExtractor {q : Statement} (hq : q.ofExtractor = true) (s : KeyServer) :
    KeysSound cx (.ran i k (.base q) s) own :=
  .of_none (managesNone_base q s) fun hthrough ↦ by simp [getsThrough, hq] at hthrough

/-- What the rest of the application does here, it does as it does on its own. -/
theorem traced_keyBase {α : Type} {k₀ : Request} {p : Req α}
    {P : AppEvent → List AppEvent → Prop} {Q : α → List AppEvent → Prop}
    {E : AppError → List AppEvent → Prop}
    (hP : ∀ q s own', P (.ran i k₀ q s.toServer) (appEvents k₀ own') →
      KeysSound cx (.ran i k (.base q) s) own')
    (h : Traced (machine cx) P i k₀ p Q E (appEvents k₀ own)) :
    Traced (keyMachine cx) (KeysSound cx) i k (keyBase p)
      (fun a own' ↦ Q a (appEvents k₀ own')) (fun e own' ↦ E e (appEvents k₀ own')) own :=
  h.lift KeyServer.toServer (appEvents k₀) (fun _ _ ↦ rfl) (fun _ _ hr ↦ hr) (fun _ _ _ ↦ rfl) hP

theorem traced_keyAsk {α : Type} {q : Statement} (hnone : q.fault = none) {f : q.Res → KeyReq α}
    {Q : α → List KeyEvent → Prop} {E : AppError → List KeyEvent → Prop}
    (h : ∀ s, KeysSound cx (.ran i k (.base q) s) own ∧ Traced (keyMachine cx) (KeysSound cx) i k
      (f (q.exec cx s.toServer).1) Q E (.ran i k (.base q) s :: own)) :
    @Traced _ _ _ _ _ _ _ α _ (keyMachine cx) (KeysSound cx) i k
      (@Bind.bind _ _ (no_index q.Res) _ (keyBase (ask q)) f) Q E own := by
  refine ⟨h, fun r hr ↦ ?_⟩
  cases hnone.symm.trans hr

/-- A statement about keys, where it is allowed. -/
theorem traced_keySql {q : KeySql} {Q : q.Res → List KeyEvent → Prop}
    (hq : ∀ s, KeysSound cx (.ran i k (.keys q) s) own)
    (hQ : ∀ s r, (q.run s).1 = some r → Q r (.ran i k (.keys q) s :: own)) :
    @Traced _ _ _ _ _ _ _ (no_index q.Res) _ (keyMachine cx) (KeysSound cx) i k (keySql q) Q
      (fun _ _ ↦ True) own := by
  refine traced_bind.mpr ((traced_ask _).mpr ⟨fun s ↦ ⟨hq s, ?_⟩, fun r hr ↦ ?_⟩)
  · exact (traced_okOr ..).mpr ⟨fun r hr ↦ hQ s r hr, fun _ ↦ trivial⟩
  · cases hr
    exact (traced_okOr ..).mpr ⟨by simp, fun _ ↦ trivial⟩

/-- Past `SessionUser` the request presents a session. -/
theorem traced_keySession {caller : Presented} {isSafe : Bool} :
    Traced (keyMachine cx) (KeysSound cx) i k (keyBase (sessionUser cx caller isSafe))
      (fun actor own' ↦ ∃ claims, caller = .bearer claims ∧ claims.sub = actor.id ∧
        KeySession cx claims own') (fun _ _ ↦ True) own := by
  have hbase : Traced (machine cx) (fun e _ ↦ e.Ran fun q _ ↦ q.ofExtractor = true) i .cleanup
      (sessionUser cx caller isSafe) (fun actor own' ↦ ∃ claims, caller = .bearer claims ∧
        claims.sub = actor.id ∧ SignedIn cx claims own') (fun _ _ ↦ True)
          (appEvents .cleanup own) := by
    apply Traced.of_only (S := (·.ofExtractor = true)) (P := fun _ _ ↦ True)
    · apply traced_sessionUser (fun _ _ _ _ ↦ trivial)
      · exact fun claims role own' hcaller hsigned ↦ ⟨claims, hcaller, rfl, hsigned⟩
      · exact fun _ _ ↦ trivial
    · exact .bind (only_ofExtractor_authUser cx caller isSafe) fun _ ↦ by simp
    · exact fun q hq _ _ ↦ hq
  refine (traced_keyBase (fun q s _ hq ↦ keysSound_ofExtractor hq s) hbase).mono ?_
    fun _ _ _ ↦ trivial
  rintro actor own' ⟨claims, hcaller, hsub, hsigned⟩
  exact ⟨claims, hcaller, hsub, keySession_of_signedIn hsigned⟩

theorem traced_insertKey {claims : Claims} {dto : CreateApiKeyDto} {id : Uuid} {new : NewApiKey}
    (hsub : claims.sub = new.userId) (hsession : KeySession cx claims own)
    (hasked : Asked cx dto new own) {Q : StoredKey → List KeyEvent → Prop}
    (hQ : ∀ stored own', Q stored own') :
    Traced (keyMachine cx) (KeysSound cx) i (.createKey (.bearer claims) dto)
      (keySql (.insert id new)) Q (fun _ _ ↦ True) own := by
  apply traced_keySql
  · intro s
    constructor
    · rintro _ _ _ _ _ ⟨⟩
      exact ⟨claims, dto, rfl, hsub, hsession, hasked⟩
    · rintro _ _ _ _ _ ⟨⟩
    · rintro _ _ ⟨⟩
  · exact fun _ _ _ ↦ hQ _ _

theorem traced_createKey {claims : Claims} {dto : CreateApiKeyDto} {actor : AuthUser}
    (hsub : claims.sub = actor.id) (hsession : KeySession cx claims own) :
    Traced (keyMachine cx) (KeysSound cx) i (.createKey (.bearer claims) dto)
      (ApiKeysService.create cx actor dto) (fun _ _ ↦ True) (fun _ _ ↦ True) own := by
  have hbearer (own' : List KeyEvent) (q : Statement) (s : KeyServer) :
      KeysSound cx (.ran i (.createKey (.bearer claims) dto) (.base q) s) own' :=
    keysSound_of_bearer rfl (managesNone_base q s)
  apply traced_bind.mpr
  apply traced_keySql
  · exact fun s ↦ keysSound_of_bearer rfl (managesNone_listActive _ s)
  intro s₁ active _
  refine traced_bind.mpr ((traced_ensure ..).mpr ⟨fun _ ↦ ?_, fun _ ↦ trivial⟩)
  refine traced_bind.mpr ((traced_stmt ..).mpr ⟨fun s₂ ↦ ⟨hbearer _ _ s₂, ?_⟩, by rintro _ ⟨⟩⟩)
  cases hdays : dto.expiresInDays with
  | none =>
      refine traced_keyAsk (q := .draw) rfl fun s₃ ↦ ⟨hbearer _ _ s₃, ?_⟩
      apply traced_bind.mpr
      apply traced_insertKey hsub (hsession.mono fun x hx ↦ by simp [hx])
      · exact ⟨rfl, ⟨_, rfl⟩, .inl ⟨hdays, rfl⟩⟩
      · exact fun _ _ ↦ trivial
  | some days =>
      apply traced_bind.mpr
      refine traced_keyAsk (q := .clock) rfl fun s₃ ↦ ⟨hbearer _ _ s₃, ?_⟩
      refine traced_keyAsk (q := .draw) rfl fun s₄ ↦ ⟨hbearer _ _ s₄, ?_⟩
      apply traced_bind.mpr
      apply traced_insertKey hsub (hsession.mono fun x hx ↦ by simp [hx])
      · refine ⟨rfl, ⟨_, rfl⟩, .inr ⟨days, hdays, ?_⟩⟩
        exact ⟨_, List.mem_cons_of_mem _ List.mem_cons_self, rfl⟩
      · exact fun _ _ ↦ trivial

/-- A request with a session that only lists keys. -/
theorem traced_listKeys {claims : Claims} (hk : k.caller? = some (.bearer claims))
    (actor : AuthUser) : Traced (keyMachine cx) (KeysSound cx) i k (ApiKeysService.list actor)
      (fun _ _ ↦ True) (fun _ _ ↦ True) own := by
  apply traced_bind.mpr
  apply traced_keySql
  · exact fun s ↦ keysSound_of_bearer hk (managesNone_listActive _ s)
  · exact fun _ _ _ ↦ trivial

theorem traced_revokeKey {claims : Claims} {actor : AuthUser} {id : Uuid}
    (hsub : claims.sub = actor.id) (hsession : KeySession cx claims own) :
    Traced (keyMachine cx) (KeysSound cx) i (.revokeKey (.bearer claims) id)
      (ApiKeysService.revoke actor id) (fun _ _ ↦ True) (fun _ _ ↦ True) own := by
  apply traced_bind.mpr
  apply traced_keySql
  · intro s
    constructor
    · rintro _ _ _ _ _ ⟨⟩
    · rintro _ _ _ _ _ ⟨⟩
      exact ⟨claims, rfl, hsub, hsession⟩
    · rintro _ _ ⟨⟩
  · exact fun _ _ _ ↦ (traced_ensure ..).mpr ⟨fun _ ↦ trivial, fun _ ↦ trivial⟩

/-- What is done with the caller's session, where there is one. -/
theorem traced_withSession {caller : Presented} {isSafe : Bool} {f : AuthUser → KeyReq KeyResponse}
    (hk : k.caller? = some caller) (hf : ∀ claims actor own', caller = .bearer claims →
      claims.sub = actor.id → KeySession cx claims own' → Traced (keyMachine cx) (KeysSound cx) i k
        (f actor) (fun _ _ ↦ True) (fun _ _ ↦ True) own') :
    Traced (keyMachine cx) (KeysSound cx) i k (keyBase (sessionUser cx caller isSafe) >>= f)
      (fun a ↦ Delivers (KeysSound cx) i k (.ok a)) (fun e ↦ Delivers (KeysSound cx) i k (.error e))
        own := by
  refine traced_bind.mpr (traced_keySession.mono ?_ fun e own' _ s ↦ keysSound_error e s)
  rintro actor own' ⟨claims, rfl, hsub, hsession⟩
  refine (hf claims actor own' rfl hsub hsession).mono ?_ fun e _ _ s ↦ keysSound_error e s
  exact fun a _ _ s ↦ keysSound_of_bearer hk (managesNone_answered _ s)

end Requests

theorem traces_keysSound (cx : Context) (k : KeyRequest) :
    Traces (keyMachine cx) (KeysSound cx) k (handleKeys cx) := by
  intro i
  cases k with
  | createKey caller dto =>
      apply traced_withSession rfl
      rintro claims actor own rfl hsub hsession
      exact traced_bind.mpr ((traced_createKey hsub hsession).mono (fun _ _ _ ↦ trivial)
        fun _ _ _ ↦ trivial)
  | listKeys caller =>
      apply traced_withSession rfl
      rintro claims actor own rfl - -
      exact traced_bind.mpr ((traced_listKeys rfl actor).mono (fun _ _ _ ↦ trivial)
        fun _ _ _ ↦ trivial)
  | revokeKey caller id =>
      apply traced_withSession rfl
      rintro claims actor own rfl hsub hsession
      exact traced_bind.mpr ((traced_revokeKey hsub hsession).mono (fun _ _ _ ↦ trivial)
        fun _ _ _ ↦ trivial)
  | app k =>
      have hstart : Traced (machine cx) (PastExtractor cx) i k (handle cx k)
          (fun _ own ↦ KeyShown cx k own) (fun _ _ ↦ True) (appEvents k []) :=
        traces_pastExtractor cx k i
      apply traced_bind.mpr
      refine (traced_keyBase ?_ hstart).mono ?_ fun e _ _ s ↦ keysSound_error e s
      · intro q s own hpast
        refine .of_none (managesNone_base q s) fun hthrough raw hraw ↦ ?_
        obtain ⟨u, hkey⟩ := hpast (by simpa [getsThrough] using hthrough) raw hraw
        exact ⟨k, u, rfl, hkey⟩
      · intro response own hshown s
        refine .of_none (managesNone_answered _ s) fun _ raw hraw ↦ ?_
        obtain ⟨u, hkey⟩ := hshown raw hraw
        exact ⟨k, u, rfl, hkey⟩

/-! ## Whole runs -/

/-- The key was created with a session of its owner, as the request asked. -/
def Created (cx : Context) (key : ApiKey) (h : List KeyEvent) : Prop :=
  ∃ newer i claims dto new b older, h = newer ++
      .ran i (.createKey (.bearer claims) dto) (.keys (.insert key.id new)) b :: older ∧
    new.row key.id = key.issued ∧ claims.sub = key.userId ∧
      KeySession cx claims (ownEvents i older) ∧ Asked cx dto new (ownEvents i older)

/-- The key was revoked with a session of its owner. -/
def Revoked (cx : Context) (key : ApiKey) (instant : Time) (h : List KeyEvent) : Prop :=
  ∃ newer i claims b older, h = newer ++
      .ran i (.revokeKey (.bearer claims) key.id) (.keys (.revoke key.userId key.id)) b :: older ∧
    b.now = instant ∧ claims.sub = key.userId ∧ KeySession cx claims (ownEvents i older)

/-- The key, as thread `i` has found it, is usable. -/
structure KeyUse (cx : Context) (s : KeyServer) (i : ℕ) (raw : String) (key : ApiKey)
    (h : List KeyEvent) : Prop where
  hash : key.keyHash = cx.sha256 raw
  scope : key.scope = .write
  unexpired : ∃ e ∈ ownEvents i h, ∀ expires, key.expiresAt = some expires → e.store.now < expires
  owner : ∃ e ∈ ownEvents i h,
    userIs key.userId (fun row ↦ row.isLive = true ∧ row.isActive = true) e.store.toServer
  found : ∃ newer e older, h = newer ++ e :: older ∧ e.tid = i ∧ key ∈ e.store.db.apiKeys ∧
    (∀ x ∈ older, ¬RevokesKey key.id x) ∧
      (keyIs key.id (·.issued = key.issued) s ∨ Created cx key older)

section Runs

variable {cx : Context} {s : KeyServer} {c : KeyConfig} {later earlier : List KeyEvent}
  {e : KeyEvent} (hc : KeyReached cx s c)
include hc

theorem KeyReached.sound (hhist : c.world.history = later ++ e :: earlier) :
    KeysSound cx e (ownEvents e.tid earlier) :=
  Along.of_append (P := AlongOwn (KeysSound cx)) (hhist ▸ hc.traces fun k _ ↦ traces_keysSound cx k)

/-- A key that is found unrevoked was not revoked before. -/
theorem KeyReached.unrevoked {key : ApiKey} (hhist : c.world.history = later ++ e :: earlier)
    (hkey : key ∈ e.store.db.apiKeys) (hactive : key.revokedAt = none) :
    ∀ x ∈ earlier, ¬RevokesKey key.id x := by
  intro x hx hrevokes
  obtain ⟨c', hc', hworld⟩ := hc.past hhist
  obtain ⟨newer, older, rfl⟩ := List.append_of_mem hx
  obtain ⟨row, hget, hrevoked⟩ := hc'.live_of_made (keyIs key.id (·.revokedAt = some x.store.now))
    (fun _ _ ↦ Iff.rfl) (keyIs_revoked_lasts _) (by rw [hworld]) hrevokes.made
  rw [hworld, Table.get?_of_mem hkey, Option.some.injEq] at hget
  simp [← hget, hactive] at hrevoked

/-- A key that is found was there at the start or created before. -/
theorem KeyReached.created {key : ApiKey} (hhist : c.world.history = later ++ e :: earlier)
    (hkey : key ∈ e.store.db.apiKeys) :
    keyIs key.id (·.issued = key.issued) s ∨ Created cx key earlier := by
  by_cases hs : keyIs key.id (·.issued = key.issued) s
  · exact .inl hs
  obtain ⟨c', hc', hworld⟩ := hc.past hhist
  have hlive : keyIs key.id (·.issued = key.issued) c'.world.store := by
    rw [hworld]
    exact ⟨key, Table.get?_of_mem hkey, rfl⟩
  obtain ⟨mid, r, older, hold, hrises, -⟩ :=
    hc'.rises_of_live (keyIs key.id (·.issued = key.issued)) (fun _ _ ↦ Iff.rfl) hs hlive
  rw [hworld] at hold
  cases r with
  | answered => exact hrises.elim
  | ran i k q b =>
      obtain ⟨hbefore, row, hget, hissued⟩ := hrises
      have hnone : b.db.apiKeys.get? key.id = none := by
        cases hrow : b.db.apiKeys.get? key.id with
        | none => rfl
        | some row₀ =>
            obtain ⟨row', hget', hsame, -⟩ := apiKey_exec cx hrow q
            rw [hget, Option.some.injEq] at hget'
            exact absurd ⟨row₀, hrow, hsame.symm.trans (hget' ▸ hissued)⟩ hbefore
      obtain ⟨new, rfl, rfl⟩ := apiKey_exec_none hnone q hget
      obtain ⟨claims, dto, rfl, hsub, hsession, hasked⟩ :=
        (KeyReached.sound hc' (by rw [hworld]; exact hold)).created _ _ _ _ _ rfl
      rw [NewApiKey.issued_row] at hissued
      have howner : new.userId = key.userId := congrArg ApiKey.userId hissued
      exact .inr ⟨mid, i, claims, dto, new, b, older, hold, hissued, hsub.trans howner, hsession,
        hasked⟩

/-- What a key was issued as, it stays. -/
theorem KeyReached.kept {key : ApiKey} (hhist : c.world.history = later ++ e :: earlier)
    (hkey : key ∈ e.store.db.apiKeys) : ∃ row, c.world.store.db.apiKeys.get? key.id = some row ∧
      row.issued = key.issued :=
  hc.live_of_lasting (keyIs key.id (·.issued = key.issued)) (fun _ _ ↦ Iff.rfl)
    (keyIs_issued_lasts key) hhist ⟨key, Table.get?_of_mem hkey, rfl⟩

/-- The key at a later event. -/
theorem KeyReached.found_at {key : ApiKey} {x : KeyEvent}
    (hhist : c.world.history = later ++ e :: earlier) (hkey : key ∈ e.store.db.apiKeys)
    (hx : x ∈ e :: later) : ∃ newer older row, c.world.history = newer ++ x :: older ∧
      x.store.db.apiKeys.get? key.id = some row ∧ row.issued = key.issued := by
  rcases List.mem_cons.mp hx with rfl | hlater
  · exact ⟨later, earlier, key, hhist, Table.get?_of_mem hkey, rfl⟩
  · obtain ⟨newer, mid, rfl⟩ := List.append_of_mem hlater
    have hsplit : c.world.history = newer ++ x :: (mid ++ e :: earlier) := by simp [hhist]
    obtain ⟨c', hc', hworld⟩ := hc.past hsplit
    obtain ⟨row, hget, hissued⟩ := KeyReached.kept hc' (by rw [hworld]) hkey
    rw [hworld] at hget
    exact ⟨newer, _, row, hsplit, hget, hissued⟩

/-- Keys are revoked with a session of the owner only. -/
theorem KeyReached.revoked {key row : ApiKey} {instant : Time}
    (hhist : c.world.history = later ++ e :: earlier) (hkey : key ∈ e.store.db.apiKeys)
    (hactive : key.revokedAt = none) (hget : c.world.store.db.apiKeys.get? key.id = some row)
    (hrevoked : row.revokedAt = some instant) : Revoked cx key instant c.world.history := by
  let live : KeyServer → Prop := keyIs key.id (·.revokedAt = some instant)
  have hdead : ¬live e.store := by
    rintro ⟨row', hget', hrevoked'⟩
    rw [Table.get?_of_mem hkey, Option.some.injEq] at hget'
    simp [← hget', hactive] at hrevoked'
  obtain ⟨x, hx, hrises⟩ : ∃ x ∈ e :: later, x.Ran (Rises (keyMachine cx) live) := by
    by_contra hnone
    push Not at hnone
    refine hc.live_of_kept (fun t ↦ ¬live t) (fun _ _ ↦ Iff.rfl) hhist hdead ?_
      ⟨row, hget, hrevoked⟩
    intro x hx hbefore hends
    refine hnone x hx ?_
    cases x with
    | ran i k q b => exact ⟨hbefore, not_not.mp hends⟩
    | answered => exact hends
  obtain ⟨newer, older, row₀, hsplit, hget₀, hissued⟩ := hc.found_at hhist hkey hx
  cases x with
  | answered => exact hrises.elim
  | ran i k q b =>
      change b.db.apiKeys.get? key.id = some row₀ at hget₀
      obtain ⟨hbefore, row', hget', hrevoked'⟩ := hrises
      obtain ⟨row₁, hget₁, -, hsame | ⟨rfl, -, hnow⟩⟩ := apiKey_exec cx hget₀ q
      · rw [hget', Option.some.injEq] at hget₁
        exact absurd ⟨row₀, hget₀, hsame.symm.trans (hget₁ ▸ hrevoked')⟩ hbefore
      · rw [hget', Option.some.injEq] at hget₁
        have hinstant : b.now = instant := by
          rw [← hget₁, hrevoked', Option.some.injEq] at hnow
          exact hnow.symm
        have howner : row₀.userId = key.userId := (congrArg ApiKey.userId hissued :)
        rw [howner] at hsplit
        obtain ⟨claims, rfl, hsub, hsession⟩ := (hc.sound hsplit).revoked _ _ _ _ _ rfl
        exact ⟨newer, i, claims, b, older, hsplit, hinstant, hsub, hsession⟩

/-- A key changes only in when it was used last, and in being revoked by its owner, once. -/
theorem api_keys_kept {key : ApiKey} (hhist : c.world.history = later ++ e :: earlier)
    (hkey : key ∈ e.store.db.apiKeys) : ∃ row, c.world.store.db.apiKeys.get? key.id = some row ∧
      row.issued = key.issued ∧ (row.revokedAt = key.revokedAt ∨ key.revokedAt = none ∧
        ∃ instant, row.revokedAt = some instant ∧ Revoked cx key instant c.world.history) := by
  obtain ⟨row, hget, hissued⟩ := hc.kept hhist hkey
  refine ⟨row, hget, hissued, ?_⟩
  cases hbefore : key.revokedAt with
  | some instant =>
      obtain ⟨row', hget', hrevoked⟩ := hc.live_of_lasting
        (keyIs key.id (·.revokedAt = some instant)) (fun _ _ ↦ Iff.rfl)
          (keyIs_revoked_lasts instant) hhist ⟨key, Table.get?_of_mem hkey, hbefore⟩
      rw [hget, Option.some.injEq] at hget'
      exact .inl (hget' ▸ hrevoked)
  | none =>
      cases hafter : row.revokedAt with
      | none => exact .inl rfl
      | some instant => exact .inr ⟨rfl, instant, rfl, hc.revoked hhist hkey hbefore hget hafter⟩

/-- Whatever requests are in flight, who presents an API key gets past the extractor only with one
that its owner created, that was not revoked when it was looked up, and that had not expired. -/
theorem api_keys_used (hhist : c.world.history = later ++ e :: earlier)
    (hthrough : getsThrough e = true) {raw : String}
    (hraw : e.request.caller? = some (.apiKey raw)) :
    ∃ k key, e.request = .app k ∧ KeyUse cx s e.tid raw key earlier := by
  obtain ⟨k, u, hk, raw', key, hcaller, hhash, huser, hscope, hstored, husable, howner⟩ :=
    (hc.sound hhist).used hthrough raw hraw
  obtain rfl : raw' = raw := by
    rw [hk] at hraw
    simpa [KeyRequest.caller?] using hcaller.symm.trans hraw
  subst huser
  have husable' : key.revokedAt = none ∧ ∀ t : Time, key.isUsable t = true →
      ∀ expires, key.expiresAt = some expires → t < expires := by
    obtain ⟨_, _, h⟩ := husable
    simp only [ApiKey.isUsable, Bool.and_eq_true, Option.isNone_iff_eq_none] at h ⊢
    exact ⟨h.1, fun t ht expires hexpires ↦ by simpa [hexpires] using ht.2⟩
  refine ⟨k, key, hk, hhash, hscope, ?_, ?_, ?_⟩
  · obtain ⟨x, hx, hunexpired⟩ := husable
    obtain ⟨e', he', hstore⟩ := exists_of_appEvents hx
    refine ⟨e', he', husable'.2 _ ?_⟩
    rwa [← hstore] at hunexpired
  · obtain ⟨x, hx, hactive⟩ := howner
    obtain ⟨e', he', hstore⟩ := exists_of_appEvents hx
    exact ⟨e', he', by rwa [hstore]⟩
  · obtain ⟨x, hx, hmem⟩ := hstored
    obtain ⟨e', he', hstore⟩ := exists_of_appEvents hx
    obtain ⟨hmem', htid⟩ := mem_ownEvents.mp he'
    obtain ⟨newer, older, rfl⟩ := List.append_of_mem hmem'
    have hfound : key ∈ e'.store.db.apiKeys := by rwa [← hstore] at hmem
    have hsplit : c.world.history = (later ++ e :: newer) ++ e' :: older := by simp [hhist]
    exact ⟨newer, e', older, rfl, htid, hfound, hc.unrevoked hsplit hfound husable'.1,
      hc.created hsplit hfound⟩

end Runs

/-! ## A run to look at -/

namespace KeyLifeSample

open Sample

def start : KeyServer := { server (.single (account 1 "ada@example.com" .user)) with
  labels := fun _ ↦ ⟨"script", "ak_123456", 0⟩ }

def key : String := ApiKeysService.apiKeyPrefix ++ Context.sample.randomToken 0

/-- Ada creates a key, changes her name with it, and revokes it. -/
def schedule : List (Action KeyRequest ℕ) :=
  .start (.createKey (bearer 1 .user) ⟨"script", some .write, none⟩) ::
    List.replicate 6 (.run 0) ++ [.answer 0, .start (.app (.updateProfile (.apiKey key) none))] ++
    List.replicate 5 (.run 1) ++ [.answer 1, .start (.revokeKey (bearer 1 .user) 1001)] ++
    List.replicate 3 (.run 2) ++ [.answer 2]

/-- The profile was changed with a key. -/
def usesKey (e : KeyEvent) : Bool :=
  getsThrough e && decide (e.request.caller? = some (.apiKey key))

/-- The key is there and not revoked. -/
def findsKey (e : KeyEvent) : Bool :=
  (e.store.db.apiKeys.get? 1001).any fun key ↦ key.revokedAt.isNone

/-- In the end the key is revoked. -/
def isUsed (c : KeyConfig) : Bool :=
  c.world.history.any usesKey && c.world.history.any findsKey &&
    (c.world.store.db.apiKeys.get? 1001).any fun key ↦ key.revokedAt.isSome

theorem reached : ∃ c, KeyReached .sample start c ∧ isUsed c = true :=
  Reachable.of_schedule schedule isUsed (by decide) (by decide)

end KeyLifeSample

theorem api_keys_used_profile : ∃ c, KeyReached .sample KeyLifeSample.start c ∧
    ∃ later e earlier, c.world.history = later ++ e :: earlier ∧ getsThrough e = true ∧
      ∃ k key, e.request = .app k ∧
        KeyUse .sample KeyLifeSample.start e.tid KeyLifeSample.key key earlier := by
  obtain ⟨c, hc, htest⟩ := KeyLifeSample.reached
  simp only [KeyLifeSample.isUsed, Bool.and_eq_true, List.any_eq_true] at htest
  obtain ⟨⟨⟨e, he, htest⟩, -⟩, -⟩ := htest
  obtain ⟨hthrough, hcaller⟩ := (Bool.and_eq_true _ _).mp htest
  obtain ⟨later, earlier, hhist⟩ := List.append_of_mem he
  exact ⟨c, hc, later, e, earlier, hhist, hthrough,
    api_keys_used hc hhist hthrough (of_decide_eq_true hcaller)⟩

theorem api_keys_kept_revoked : ∃ c, KeyReached .sample KeyLifeSample.start c ∧
    ∃ key row instant, c.world.store.db.apiKeys.get? key.id = some row ∧
      row.issued = key.issued ∧ key.revokedAt = none ∧ row.revokedAt = some instant ∧
        Revoked .sample key instant c.world.history := by
  obtain ⟨c, hc, htest⟩ := KeyLifeSample.reached
  simp only [KeyLifeSample.isUsed, Bool.and_eq_true, List.any_eq_true] at htest
  obtain ⟨⟨-, e, he, hfinds⟩, hrevoked⟩ := htest
  obtain ⟨key, hkey, hnone⟩ := (Option.any_eq_true ..).mp hfinds
  obtain ⟨last, hlast, hsome⟩ := (Option.any_eq_true ..).mp hrevoked
  rw [Option.isNone_iff_eq_none] at hnone
  obtain ⟨later, earlier, hhist⟩ := List.append_of_mem he
  obtain ⟨row, hrow, hissued, hsame | ⟨-, instant, hinstant, hby⟩⟩ :=
    api_keys_kept hc hhist (Table.mem_of_get? hkey)
  · have hid : key.id = 1001 := Table.key_of_get? hkey
    rw [hid] at hrow
    obtain rfl := Option.some.inj (hlast.symm.trans hrow)
    rw [hsame, hnone] at hsome
    cases hsome
  · exact ⟨c, hc, key, row, instant, hrow, hissued, hnone, hinstant, hby⟩

end ApiStarter
