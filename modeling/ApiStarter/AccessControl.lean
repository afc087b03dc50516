import ApiStarter.Identities

/-!
# Who may write what

The access control of the application as one table: for every statement that
writes, what the thread running it has shown before.  A session speaks for its
account, an API key with the scope `write` does so for everything but
credentials, administrators act on others, and who is not signed in holds a
link, a password or the answer of a provider.
-/

namespace ApiStarter

open Interleave Interleave.Prog Relational

/-! ## What a request carries -/

/-- The credential in the headers. -/
def Request.caller? : Request → Option Presented
  | .createUser caller .. | .updateUser caller .. | .deleteUser caller _
  | .updateProfile caller _ | .twoFactorSetup caller | .twoFactorEnable caller _
  | .twoFactorDisable caller _ | .changePassword caller .. | .inviteUser caller ..
  | .resendVerification caller | .requestEmailChange caller .. | .oauthLink caller _
  | .oauthUnlink caller _ | .passkeyRegisterBegin caller | .passkeyRegisterFinish caller ..
  | .passkeyDelete caller _ | .qrScan caller _ | .qrApprove caller .. | .qrReject caller _ =>
      some caller
  | _ => none

/-- The password of an existing account. -/
def Request.password? : Request → Option String
  | .login _ password => some password
  | .twoFactorDisable _ currentPassword => some currentPassword
  | .changePassword _ currentPassword _ => some currentPassword
  | .requestEmailChange _ currentPassword _ => some currentPassword
  | _ => none

/-- The token of an emailed link, or of a login that waits for its second factor. -/
def Request.token? : Request → Option String
  | .twoFactorVerify pendingToken _ => some pendingToken
  | .resetPassword token _ => some token
  | .verifyEmail token => some token
  | .confirmEmailChange token => some token
  | _ => none

/-- The address that is typed in to name an account. -/
def Request.address? : Request → Option String
  | .login email _ => some email
  | .forgotPassword email => some email
  | _ => none

/-! ## What a thread has shown -/

/-- `p` held at one of the thread's own steps. -/
def Seen (p : Server → Prop) (own : List AppEvent) : Prop := ∃ e ∈ own, p e.store

theorem Seen.mono {p : Server → Prop} {own own' : List AppEvent} (h : Seen p own)
    (hown : own ⊆ own') : Seen p own' := by
  obtain ⟨e, he, hp⟩ := h
  exact ⟨e, hown he, hp⟩

section Shown

variable (cx : Context) (k : Request) (u : Uuid) (own : List AppEvent)

/-- The request presents a session of the account that is accepted. -/
def SessionOf : Prop :=
  ∃ claims : Claims, k.caller? = some (.bearer claims) ∧ claims.sub = u ∧ SignedIn cx claims own

/-- The request presents an API key of the account, usable and allowed to write. -/
def KeyOf : Prop :=
  ∃ (raw : String) (key : ApiKey), k.caller? = some (.apiKey raw) ∧ key.keyHash = cx.sha256 raw ∧
    key.userId = u ∧ key.scope = .write ∧ Seen (fun s ↦ key ∈ s.db.apiKeys) own ∧
      Seen (fun s ↦ key.isUsable s.now = true) own ∧
        Seen (userIs u fun row ↦ row.isLive = true ∧ row.isActive = true) own

def SpeaksFor : Prop := SessionOf cx k u own ∨ KeyOf cx k u own

def Administers : Prop :=
  SpeaksFor cx k u own ∧ Seen (userIs u fun row ↦ row.isActiveAdmin = true) own

/-- The request carries the account's password. -/
def KnowsPassword : Prop :=
  ∃ password, k.password? = some password ∧
    Seen (userIs u fun row ↦ cx.verifyPassword password row.passwordHash = true) own

/-- The request carries a link of the account that works. -/
def HoldsLink (purpose : TokenPurpose) : Prop :=
  ∃ raw t, k.token? = some raw ∧ t.userId = u ∧ Seen (fun s ↦
    s.db.authTokens.get? (cx.sha256 raw) = some t ∧ t.isRedeemable purpose s.now = true) own

/-- The request names the account by its address. -/
def NamedBy : Prop :=
  ∃ address, k.address? = some address ∧
    Seen (userIs u fun row ↦ row.isLive = true ∧ row.email = cx.normalizeEmail address) own

/-- The thread has made the account itself. -/
def Made : Prop := ∃ e ∈ own, ∃ email, Creates cx u email e

end Shown

/-! ## The table -/

section Table

variable (cx : Context) (k : Request) (own : List AppEvent)

def UsersSql.Warrant : UsersSql → Prop
  | .create _ new => (∃ a, Administers cx k a own) ∨ (∃ email password, k = .bootstrapAdmin email
      password) ∨ k.caller? = none ∧ new.role = .user
  | .update id patch _ =>
      (∃ a, Administers cx k a own ∧
        (a = id → patch.role ≠ some .user ∧ patch.isActive ≠ some false)) ∨
        SpeaksFor cx k id own ∧ patch.role = none ∧ patch.isActive = none
  | .softDelete id _ => ∃ a, Administers cx k a own ∧ a ≠ id
  | .setPasswordHash id _ => SessionOf cx k id own ∧ KnowsPassword cx k id own ∨
      HoldsLink cx k id own .passwordReset
  | .recordFailedLogin id .. => NamedBy cx k id own
  | .resetFailedLogins id => NamedBy cx k id own ∧ KnowsPassword cx k id own
  | .markEmailVerified id =>
      HoldsLink cx k id own .emailVerification ∨ HoldsLink cx k id own .passwordReset
  | .changeEmail id _ => HoldsLink cx k id own .emailChange
  | .setPendingTotpSecret id _ | .enableTotp id => SessionOf cx k id own
  | .disableTotp id => SessionOf cx k id own ∧ KnowsPassword cx k id own
  | .findByEmail _ | .findById _ | .countActiveAdmins => True

/-- Who may send a link of this kind, and thereby retire the older ones. -/
def IssueWarrant (u : Uuid) : TokenPurpose → Prop
  | .emailVerification => Made cx u own ∨ SpeaksFor cx k u own
  | .passwordReset => NamedBy cx k u own ∨ Made cx u own ∧ ∃ a, Administers cx k a own
  | .emailChange => SessionOf cx k u own ∧ KnowsPassword cx k u own
  | .twoFactorPending => NamedBy cx k u own ∧ KnowsPassword cx k u own

def AuthTokenSql.Warrant : AuthTokenSql → Prop
  | .insert u purpose .. => IssueWarrant cx k own u purpose
  | .invalidateUnused u purpose =>
      IssueWarrant cx k own u purpose ∨ HoldsLink cx k u own purpose
  | .findUnused .. | .claim .. | .countIssuedSince .. | .deleteExpired _ => True

def RecoveryCodeSql.Warrant : RecoveryCodeSql → Prop
  | .replaceAll u _ _ => SessionOf cx k u own
  | .deleteAll u => SessionOf cx k u own ∧ KnowsPassword cx k u own
  | .claim u _ => HoldsLink cx k u own .twoFactorPending
  | .lockAll _ => True

def ApiKeySql.Warrant : ApiKeySql → Prop
  | .touch id _ => ∃ raw, k.caller? = some (.apiKey raw) ∧
      Seen (fun s ↦ ∃ key ∈ s.db.apiKeys, key.id = id ∧ key.keyHash = cx.sha256 raw) own
  | .findByHash _ => True

def OAuthIdentitySql.Warrant : OAuthIdentitySql → Prop
  | .insert u provider x _ => ∃ query profile, k = .oauthCallback provider query (some profile) ∧
      profile.providerUserId = x ∧ Vouched cx provider profile u own
  | .delete u _ => SessionOf cx k u own
  | .find .. | .list _ => True

def PasskeySql.Warrant : PasskeySql → Prop
  | .insert _ u .. | .delete u _ => SessionOf cx k u own
  | .updateAfterUse id _ => ∃ challengeId credential u,
      k = .passkeyLoginFinish challengeId credential ∧ cx.identify credential = some u ∧
        Seen (fun s ↦ ∃ row ∈ s.db.passkeys, row.id = id ∧ row.userId = u) own
  | .listByUser _ => True

def QrSql.Warrant : QrSql → Prop
  | .markScanned _ u | .resolve _ u _ => SessionOf cx k u own
  | .recordWrongCode id => ∃ u, SessionOf cx k u own ∧ Seen (fun s ↦
      ∃ session, s.db.qrSessions.get? id = some session ∧ session.userId = some u) own
  | .consume id => ∃ secret, k = .qrPoll id (some secret) ∧ Seen (fun s ↦
      ∃ session, s.db.qrSessions.get? id = some session ∧
        session.secretHash = cx.sha256 secret) own
  | .insert .. | .find _ | .deleteExpired _ => True

/-- What a request has shown before it runs the statement. -/
def Sql.Warrant : Sql → Prop
  | .users q => q.Warrant cx k own
  | .authTokens q => q.Warrant cx k own
  | .recoveryCodes q => q.Warrant cx k own
  | .apiKeys q => q.Warrant cx k own
  | .oauthStates (.insert row) => ∀ u, row.userId = some u → SessionOf cx k u own
  | .oauthStates _ => True
  | .oauthIdentities q => q.Warrant cx k own
  -- the grants of a callback are for the account that holds the provider's
  | .loginGrants (.insert row) => ∃ provider query profile,
      k = .oauthCallback provider query (some profile) ∧
        ∃ e ∈ own, LeavesHeld cx provider profile.providerUserId row.userId e
  | .loginGrants _ => True
  | .passkeys q => q.Warrant cx k own
  | .challenges (.insert row) => ∀ u, row.userId = some u → SessionOf cx k u own
  | .challenges _ => True
  | .qrSessions q => q.Warrant cx k own
  | .jobs _ => k = .cleanup
  | .recordAudit actor .. => Administers cx k actor own
  | .signInMethodCount _ => True

end Table

/-- Every statement stands on what its own thread has shown before. -/
def Warranted (cx : Context) : AppEvent → List AppEvent → Prop
  | .ran _ k (.sql q) _, own => q.Warrant cx k own
  | _, _ => True

/-! ## What was shown stays shown -/

section Mono

variable {cx : Context} {k : Request} {u : Uuid} {own own' : List AppEvent}

theorem SessionOf.mono (h : SessionOf cx k u own) (hown : own ⊆ own') : SessionOf cx k u own' := by
  obtain ⟨claims, hcaller, hsub, hsigned⟩ := h
  exact ⟨claims, hcaller, hsub, hsigned.mono hown⟩

theorem KeyOf.mono (h : KeyOf cx k u own) (hown : own ⊆ own') : KeyOf cx k u own' := by
  obtain ⟨raw, key, hcaller, hhash, huser, hscope, hstored, husable, howner⟩ := h
  exact ⟨raw, key, hcaller, hhash, huser, hscope, hstored.mono hown, husable.mono hown,
    howner.mono hown⟩

theorem SpeaksFor.mono (h : SpeaksFor cx k u own) (hown : own ⊆ own') : SpeaksFor cx k u own' :=
  h.imp (·.mono hown) (·.mono hown)

theorem Administers.mono (h : Administers cx k u own) (hown : own ⊆ own') :
    Administers cx k u own' := ⟨h.1.mono hown, h.2.mono hown⟩

theorem KnowsPassword.mono (h : KnowsPassword cx k u own) (hown : own ⊆ own') :
    KnowsPassword cx k u own' := by
  obtain ⟨password, hpassword, hseen⟩ := h
  exact ⟨password, hpassword, hseen.mono hown⟩

theorem HoldsLink.mono {purpose : TokenPurpose} (h : HoldsLink cx k u own purpose)
    (hown : own ⊆ own') : HoldsLink cx k u own' purpose := by
  obtain ⟨raw, t, htoken, huser, hseen⟩ := h
  exact ⟨raw, t, htoken, huser, hseen.mono hown⟩

theorem NamedBy.mono (h : NamedBy cx k u own) (hown : own ⊆ own') : NamedBy cx k u own' := by
  obtain ⟨address, haddress, hseen⟩ := h
  exact ⟨address, haddress, hseen.mono hown⟩

theorem Made.mono (h : Made cx u own) (hown : own ⊆ own') : Made cx u own' := by
  obtain ⟨e, he, hcreates⟩ := h
  exact ⟨e, hown he, hcreates⟩

theorem IssueWarrant.mono {purpose : TokenPurpose} (h : IssueWarrant cx k own u purpose)
    (hown : own ⊆ own') : IssueWarrant cx k own' u purpose := by
  cases purpose with
  | emailVerification => exact h.imp (·.mono hown) (·.mono hown)
  | passwordReset =>
      refine h.imp (·.mono hown) fun ⟨hmade, a, hadmin⟩ ↦ ⟨hmade.mono hown, a, hadmin.mono hown⟩
  | emailChange => exact ⟨h.1.mono hown, h.2.mono hown⟩
  | twoFactorPending => exact ⟨h.1.mono hown, h.2.mono hown⟩

end Mono

/-! ## Walking through a handler -/

section Walk

variable {cx : Context} {i : ℕ} {k : Request} {own : List AppEvent} {α β ε : Type}

/-- From `own` on, everything `p` does is warranted. -/
def Guards (cx : Context) (i : ℕ) (k : Request) (own : List AppEvent)
    (p : Prog Statement.Res ε α) : Prop :=
  Traced (machine cx) (Warranted cx) i k p (fun _ _ ↦ True) (fun _ _ ↦ True) own

/-- The statement is warranted from `own` on. -/
def Stands (cx : Context) (k : Request) (own : List AppEvent) (q : Statement) : Prop :=
  ∀ own', own ⊆ own' → ∀ i s, Warranted cx (.ran i k q s) own'

theorem stands_sql {q : Sql} :
    Stands cx k own (.sql q) ↔ ∀ own', own ⊆ own' → q.Warrant cx k own' :=
  ⟨fun h own' hown ↦ h own' hown 0 ⟨Db.empty, 0, 0, []⟩, fun h own' hown _ _ ↦ h own' hown⟩

@[simp] theorem stands_clock : Stands cx k own .clock := fun _ _ _ _ ↦ trivial
@[simp] theorem stands_draw : Stands cx k own .draw := fun _ _ _ _ ↦ trivial
@[simp] theorem stands_mail (m : Mail) : Stands cx k own (.mail m) := fun _ _ _ _ ↦ trivial
@[simp] theorem stands_verifyCode (secret email code : String) :
    Stands cx k own (.verifyCode secret email code) := fun _ _ _ _ ↦ trivial

/-- A part that stands on what was shown before it. -/
theorem traced_stands {p : Prog Statement.Res ε α} {Q : α → List AppEvent → Prop}
    (hp : p.Only (Stands cx k own)) (hQ : ∀ a own', own ⊆ own' → Q a own') :
    Traced (machine cx) (Warranted cx) i k p Q (fun _ _ ↦ True) own :=
  (traced_of_only (S := Stands cx k own) (A := fun own' ↦ own ⊆ own') hp (returns_true _)
    (fun _ hq s own' h ↦ ⟨hq own' h i s, List.subset_cons_of_subset _ h⟩)
      (List.Subset.refl own)).mono (fun a own' h ↦ hQ a own' h.2) fun _ _ _ ↦ trivial

theorem guards_of_only {p : Prog Statement.Res ε α} (hp : p.Only (Stands cx k own)) :
    Guards cx i k own p := traced_stands hp fun _ _ _ ↦ trivial

theorem traced_sql_warranted {q : Sql} {Q : q.Res → List AppEvent → Prop}
    (hq : q.Warrant cx k own)
    (hQ : ∀ s r, (q.run s.now s.db).1 = some r → Q r (.ran i k (.sql q) s :: own)) :
    @Traced _ _ _ _ _ _ _ (no_index q.Res) _ (machine cx) (Warranted cx) i k (sql q) Q
      (fun _ _ ↦ True) own :=
  traced_sql (fun _ ↦ hq) hQ (fun _ _ ↦ trivial) trivial

theorem traced_okOr_warranted {o : Option α} {e : ε} {Q : α → List AppEvent → Prop}
    (hQ : ∀ a, o = some a → Q a own) :
    Traced (machine cx) (Warranted cx) i k (okOr e o) Q (fun _ _ ↦ True) own :=
  (traced_okOr ..).mpr ⟨hQ, fun _ ↦ trivial⟩

theorem traced_ensure_warranted {c : Prop} [Decidable c] {e : ε} {Q : Unit → List AppEvent → Prop}
    (hQ : c → Q () own) :
    Traced (machine cx) (Warranted cx) i k (ensure c e) Q (fun _ _ ↦ True) own :=
  (traced_ensure ..).mpr ⟨hQ, fun _ ↦ trivial⟩

/-- Reading an account by its id. -/
theorem traced_readUser {id : Uuid} {e : AppError} {p : User → Bool}
    {Q : User → List AppEvent → Prop} (hQ : ∀ user own', own ⊆ own' → user.id = id →
      user.isLive = true → p user = true →
        Seen (fun s ↦ s.db.users.get? id = some user) own' → Q user own') :
    Traced (machine cx) (Warranted cx) i k
      (do let found ← sql (.users (.findById id)); okOr e (found.filter p)) Q
      (fun _ _ ↦ True) own := by
  apply traced_bind.mpr
  apply traced_sql_warranted (by trivial)
  intro s found hfound
  apply traced_okOr_warranted
  intro user huser
  obtain ⟨hsome, hp⟩ := Option.filter_eq_some_iff.mp huser
  obtain ⟨hget, hid, hlive⟩ := find?_liveId_eq_some ((Option.some.inj hfound).trans hsome)
  exact hQ user _ (List.subset_cons_self _ _) hid hlive hp ⟨_, List.mem_cons_self, hget⟩

end Walk

/-! ## The extractors -/

section Callers

variable {cx : Context} {i : ℕ} {k : Request} {own : List AppEvent}

theorem traced_authUser_warranted {caller : Presented} (hk : k.caller? = some caller)
    {Q : AuthUser → List AppEvent → Prop}
    (hQ : ∀ actor own', own ⊆ own' → SpeaksFor cx k actor.id own' →
      (actor.credential = .session → SessionOf cx k actor.id own') →
      Seen (userIs actor.id fun row ↦
        row.isLive = true ∧ row.isActive = true ∧ row.role = actor.role) own' → Q actor own') :
    Traced (machine cx) (Warranted cx) i k (authUser cx caller false) Q (fun _ _ ↦ True) own := by
  cases caller with
  | bearer claims =>
      apply traced_bind.mpr
      apply traced_clock
      refine fun s₁ ↦ ⟨trivial, traced_bind.mpr (traced_ensure_warranted fun hexp ↦ ?_)⟩
      unfold verifySession
      rw [← Prog.bind_assoc]
      apply traced_bind.mpr
      apply traced_readUser
      intro user own₂ hown hid hlive hactive hread
      refine traced_bind.mpr (traced_ensure_warranted fun htv ↦ ?_)
      obtain ⟨e, he, hget⟩ := hread
      have haccepts : accepts cx claims e.store = true :=
        accepts_iff.mpr ⟨user, hget, hlive, hactive, htv⟩
      have hsession : SessionOf cx k user.id own₂ :=
        ⟨claims, hk, hid.symm, ⟨_, hown List.mem_cons_self, hexp⟩, e, he, haccepts⟩
      apply hQ
      · exact fun x hx ↦ hown (List.mem_cons_of_mem _ hx)
      · exact .inl hsession
      · exact fun _ ↦ hsession
      · exact ⟨e, he, user, hid ▸ hget, hlive, hactive, rfl⟩
  | apiKey raw =>
      apply traced_bind.mpr
      apply traced_bind.mpr
      refine traced_clock fun s₁ ↦ ⟨trivial, ?_⟩
      refine traced_bind.mpr (traced_sql_warranted (by trivial) fun s₂ found hfound ↦ ?_)
      refine traced_bind.mpr (traced_okOr_warranted fun key hkey ↦ ?_)
      obtain ⟨hsome, husable⟩ := Option.filter_eq_some_iff.mp hkey
      obtain ⟨hmem, hhash⟩ := Table.find?_eq_some ((Option.some.inj hfound).trans hsome)
      rw [decide_eq_true_eq] at hhash
      rw [← Prog.bind_assoc]
      apply traced_bind.mpr
      apply traced_readUser
      intro owner own₃ hown hid hlive hactive hread
      apply traced_bind.mpr
      apply traced_sql_warranted
      · exact ⟨raw, hk, _, hown List.mem_cons_self, key, hmem, rfl, hhash⟩
      intro s₄ _ _
      refine traced_bind.mpr (traced_ensure_warranted fun hwrites ↦ ?_)
      obtain ⟨e, he, hget⟩ := hread
      have hscope : key.scope = .write := by
        cases hs : key.scope with
        | read => simp [hs] at hwrites
        | write => rfl
      have hstill : ∀ x ∈ own₃, x ∈ .ran i k (.sql (.apiKeys (.touch key.id s₁.now))) s₄ :: own₃ :=
        fun x hx ↦ List.mem_cons_of_mem _ hx
      apply hQ
      · exact fun x hx ↦ hstill x (hown (by simp [hx]))
      · refine .inr ⟨raw, key, hk, hhash, hid.symm, hscope, ?_, ?_, ?_⟩
        · exact ⟨_, hstill _ (hown List.mem_cons_self), hmem⟩
        · exact ⟨_, hstill _ (hown (List.mem_cons_of_mem _ List.mem_cons_self)), husable⟩
        · exact ⟨e, hstill e he, owner, hid ▸ hget, hlive, hactive⟩
      · rintro ⟨⟩
      · exact ⟨e, hstill e he, owner, hid ▸ hget, hlive, hactive, rfl⟩

theorem traced_sessionUser_warranted {caller : Presented} (hk : k.caller? = some caller)
    {Q : AuthUser → List AppEvent → Prop}
    (hQ : ∀ actor own', own ⊆ own' → SessionOf cx k actor.id own' → Q actor own') :
    Traced (machine cx) (Warranted cx) i k (sessionUser cx caller false) Q
      (fun _ _ ↦ True) own := by
  refine traced_bind.mpr (traced_authUser_warranted hk fun actor own' hown _ hsession _ ↦ ?_)
  exact traced_bind.mpr (traced_ensure_warranted fun hcredential ↦
    hQ actor own' hown (hsession hcredential))

theorem traced_adminUser_warranted {caller : Presented} (hk : k.caller? = some caller)
    {Q : AuthUser → List AppEvent → Prop}
    (hQ : ∀ actor own', own ⊆ own' → Administers cx k actor.id own' → Q actor own') :
    Traced (machine cx) (Warranted cx) i k (adminUser cx caller false) Q
      (fun _ _ ↦ True) own := by
  refine traced_bind.mpr (traced_authUser_warranted hk fun actor own' hown hspeaks _ hseen ↦ ?_)
  refine traced_bind.mpr (traced_ensure_warranted fun hadmin ↦ hQ actor own' hown ⟨hspeaks, ?_⟩)
  obtain ⟨e, he, row, hget, hlive, hactive, hrole⟩ := hseen
  exact ⟨e, he, row, hget, by simp [User.isActiveAdmin, hrole, hadmin, hactive, hlive]⟩

end Callers

/-! ## Accounts -/

section Accounts

variable {cx : Context} {i : ℕ} {k : Request} {own : List AppEvent}

theorem stands_recordAudit {actor : Uuid} (hadmin : Administers cx k actor own) (action : String)
    (target : Option Uuid) (details : AuditDetails) :
    (recordAudit actor action target details).Only (Stands cx k own) := by
  refine .bind (.attempt ?_) fun _ ↦ trivial
  exact only_sql.mpr (stands_sql.mpr fun _ hown ↦ hadmin.mono hown)

theorem traced_createWithPassword_warranted {email password : String} {name : Option String}
    {role : Role} {verified : Bool} {Q : User → List AppEvent → Prop}
    (hcreate : ∀ id new own', own ⊆ own' → new.role = role →
      (Sql.users (.create id new)).Warrant cx k own')
    (hQ : ∀ user own', own ⊆ own' → Made cx user.id own' → Q user own') :
    Traced (machine cx) (Warranted cx) i k
      (UsersService.createWithPassword cx email password name role verified) Q
      (fun _ _ ↦ True) own := by
  apply traced_bind.mpr
  apply traced_stands only_rejectPasswordIfPolicyViolation
  intro _ own₁ h₁
  apply traced_bind.mpr
  apply traced_stands (by simp [hashBlocking])
  intro hash own₂ h₂
  apply traced_bind.mpr
  refine (traced_ask _).mpr ⟨fun s₃ ↦ ⟨trivial, ?_⟩, by rintro _ ⟨⟩⟩
  have hstill : own ⊆ .ran i k .draw s₃ :: own₂ := fun x hx ↦ by simp [h₂ (h₁ hx)]
  apply traced_bind.mpr
  apply traced_sql_warranted
  · exact hcreate _ _ _ hstill rfl
  intro s₄ created hcreated
  cases created with
  | error e => trivial
  | ok user =>
      obtain ⟨rfl, hnone, hget⟩ := UsersSql.create_eq_ok hcreated
      apply hQ
      · exact fun x hx ↦ List.mem_cons_of_mem _ (hstill hx)
      · exact ⟨_, List.mem_cons_self, _, ⟨_, rfl⟩, hnone, _, hget, rfl⟩

theorem guards_create {actor : AuthUser} (hadmin : Administers cx k actor.id own)
    {email password : String} {name : Option String} {role : Option Role} :
    Guards cx i k own (UsersService.create cx actor email password name role) := by
  apply traced_bind.mpr
  apply traced_createWithPassword_warranted
  · exact fun _ _ own' hown _ ↦ .inl ⟨actor.id, hadmin.mono hown⟩
  intro user own' hown _
  apply guards_of_only
  exact .bind (stands_recordAudit (hadmin.mono hown) ..) fun _ ↦ trivial

theorem guards_update {actor : AuthUser} (hadmin : Administers cx k actor.id own) {id : Uuid}
    {dto : UpdateUserDto} : Guards cx i k own (UsersService.update actor id dto) := by
  have haudit := fun action target details ↦ stands_recordAudit hadmin action target details
  refine traced_bind.mpr (traced_ensure_warranted fun hself ↦ guards_of_only ?_)
  have hupdate : ∀ guard, Stands cx k own
      (.sql (.users (.update id ⟨dto.displayName, dto.role, dto.isActive⟩ guard))) := by
    intro guard
    refine stands_sql.mpr fun own' hown ↦ .inl ⟨actor.id, hadmin.mono hown, fun hid ↦ ?_⟩
    exact ⟨fun hrole ↦ hself ⟨hid, .inl hrole⟩, fun hactive ↦ hself ⟨hid, .inr hactive⟩⟩
  refine .bind ?_ fun before ↦ .bind (only_sql.mpr (hupdate _)) fun _ ↦ ?_
  · simp [UsersService.require, stands_sql, Sql.Warrant, UsersSql.Warrant]
  refine .bind only_orThrow fun _ ↦ .bind (by simp) fun updated ↦ ?_
  refine .bind ?_ fun _ ↦ .bind ?_ fun _ ↦ trivial
  · unfold UsersService.auditRole
    repeat' split
    all_goals first | exact haudit .. | trivial
  · unfold UsersService.auditActive
    repeat' split
    all_goals first | exact haudit .. | trivial

theorem guards_delete {actor : AuthUser} (hadmin : Administers cx k actor.id own) {id : Uuid} :
    Guards cx i k own (UsersService.delete actor id) := by
  refine traced_bind.mpr (traced_ensure_warranted fun hself ↦ guards_of_only ?_)
  refine .bind ?_ fun target ↦ .bind ?_ fun _ ↦ .bind only_orThrow fun _ ↦ ?_
  · simp [UsersService.require, stands_sql, Sql.Warrant, UsersSql.Warrant]
  · exact only_sql.mpr (stands_sql.mpr fun _ hown ↦ ⟨actor.id, hadmin.mono hown, hself⟩)
  · exact .bind (by simp) fun _ ↦ .bind (stands_recordAudit hadmin ..) fun _ ↦ trivial

theorem guards_updateProfile {actor : AuthUser} (hspeaks : SpeaksFor cx k actor.id own)
    {name : Option String} : Guards cx i k own (UsersService.updateProfile actor name) := by
  apply guards_of_only
  apply only_updateProfile
  exact stands_sql.mpr fun _ hown ↦ .inr ⟨hspeaks.mono hown, rfl, rfl⟩

theorem stands_issue {u : Uuid} (purpose : TokenPurpose) {ttl : Time} {newEmail : Option String}
    (h : IssueWarrant cx k own u purpose) :
    (OneTimeTokenService.issue cx u purpose ttl newEmail).Only (Stands cx k own) := by
  have hinsert : ∀ hash newEmail expiresAt, Stands cx k own
      (.sql (.authTokens (.insert u purpose hash newEmail expiresAt))) := fun _ _ _ ↦
    stands_sql.mpr fun _ hown ↦ h.mono hown
  have hretire : Stands cx k own (.sql (.authTokens (.invalidateUnused u purpose))) :=
    stands_sql.mpr fun _ hown ↦ .inl (h.mono hown)
  simp [OneTimeTokenService.issue, hinsert, hretire]

theorem stands_sendVerification {user : User}
    (h : Made cx user.id own ∨ SpeaksFor cx k user.id own) :
    (EmailVerificationService.sendVerification cx user).Only (Stands cx k own) :=
  (stands_issue .emailVerification h).bind fun _ ↦ by simp

theorem guards_register {email password : String} (hk : k.caller? = none) :
    Guards cx i k own (SessionService.register cx email password) := by
  apply traced_bind.mpr
  apply traced_createWithPassword_warranted
  · exact fun _ new _ _ hrole ↦ .inr (.inr ⟨hk, hrole⟩)
  intro user own' hown hmade
  apply guards_of_only
  exact .bind (.attempt (stands_sendVerification (.inl hmade))) fun _ ↦ trivial

theorem guards_invite {actor : Uuid} (hadmin : Administers cx k actor own) {email : String}
    {name : Option String} {role : Option Role} :
    Guards cx i k own (PasswordResetService.invite cx email name role) := by
  apply traced_bind.mpr
  apply traced_stands (by simp [generateToken])
  intro unusable own₁ h₁
  apply traced_bind.mpr
  apply traced_createWithPassword_warranted
  · exact fun _ _ own' hown _ ↦ .inl ⟨actor, hadmin.mono fun x hx ↦ hown (h₁ hx)⟩
  intro user own₂ h₂ hmade
  apply guards_of_only
  refine (stands_issue .passwordReset ?_).bind fun _ ↦ by simp
  exact .inr ⟨hmade, actor, hadmin.mono fun x hx ↦ h₂ (h₁ hx)⟩

theorem guards_bootstrapAdmin {email password : String} (hk : k = .bootstrapAdmin email password) :
    Guards cx i k own (UsersService.ensureBootstrapAdmin cx email password) := by
  apply traced_bind.mpr
  apply traced_sql_warranted (by trivial)
  intro s admins _
  split
  · trivial
  · refine traced_bind.mpr (traced_bindBoth.mpr ?_)
    apply traced_createWithPassword_warranted
    · exact fun _ _ _ _ _ ↦ .inr (.inl ⟨email, password, hk⟩)
    · exact fun _ _ _ _ ↦ trivial

end Accounts

/-! ## Links and passwords -/

section Links

variable {cx : Context} {i : ℕ} {k : Request} {own : List AppEvent}

theorem traced_redeem_warranted {purpose : TokenPurpose} {raw : String} (hk : k.token? = some raw)
    {Q : AuthToken → List AppEvent → Prop}
    (hQ : ∀ t own', HoldsLink cx k t.userId own' purpose → Q t own') :
    Traced (machine cx) (Warranted cx) i k (OneTimeTokenService.redeem cx purpose raw) Q
      (fun _ _ ↦ True) own := by
  apply traced_bind.mpr
  apply traced_sql_warranted (by trivial)
  intro s claimed hclaimed
  apply traced_okOr_warranted
  rintro t' rfl
  obtain ⟨t, hget, hredeemable, rfl⟩ := AuthTokenSql.claim_eq_some hclaimed
  apply hQ
  exact ⟨raw, t, hk, rfl, _, List.mem_cons_self, hget, hredeemable⟩

theorem traced_peek_warranted {purpose : TokenPurpose} {raw : String} (hk : k.token? = some raw)
    {Q : AuthToken → List AppEvent → Prop}
    (hQ : ∀ t own', HoldsLink cx k t.userId own' purpose → Q t own') :
    Traced (machine cx) (Warranted cx) i k (OneTimeTokenService.peek cx purpose raw) Q
      (fun _ _ ↦ True) own := by
  apply traced_bind.mpr
  apply traced_sql_warranted (by trivial)
  intro s found hfound
  apply traced_okOr_warranted
  rintro t rfl
  have hfind := Option.some.inj hfound
  rw [Table.find?_key] at hfind
  obtain ⟨hget, hredeemable⟩ := Option.filter_eq_some_iff.mp hfind
  exact hQ _ _ ⟨raw, t, hk, rfl, _, List.mem_cons_self, hget, hredeemable⟩

theorem traced_currentUser_warranted {actor : AuthUser} {Q : User → List AppEvent → Prop}
    (hQ : ∀ user own', own ⊆ own' → user.id = actor.id →
      Seen (fun s ↦ s.db.users.get? actor.id = some user) own' → Q user own') :
    Traced (machine cx) (Warranted cx) i k (EmailVerificationService.currentUser actor) Q
      (fun _ _ ↦ True) own := by
  apply traced_bind.mpr
  apply traced_sql_warranted (by trivial)
  intro s found hfound
  apply traced_okOr_warranted
  rintro user rfl
  obtain ⟨hget, hid, -⟩ := find?_liveId_eq_some (Option.some.inj hfound)
  exact hQ user _ (List.subset_cons_self _ _) hid ⟨_, List.mem_cons_self, hget⟩

/-- Whoever passes the check of a password knows it. -/
theorem knowsPassword_of_seen {password : String} {user : User} (hk : k.password? = some password)
    (hseen : Seen (fun s ↦ s.db.users.get? user.id = some user) own)
    (hverified : cx.verifyPassword password user.passwordHash = true) :
    KnowsPassword cx k user.id own := by
  obtain ⟨e, he, hget⟩ := hseen
  exact ⟨password, hk, e, he, user, hget, hverified⟩

theorem traced_findByEmail_warranted {address : String} (hk : k.address? = some address)
    {Q : Option User → List AppEvent → Prop} (hQ : ∀ found own', (∀ user, found = some user →
      NamedBy cx k user.id own' ∧ Seen (fun s ↦ s.db.users.get? user.id = some user) own') →
        Q found own') :
    Traced (machine cx) (Warranted cx) i k (UsersService.findByEmail cx address) Q
      (fun _ _ ↦ True) own := by
  apply traced_sql_warranted (by trivial)
  intro s found hfound
  apply hQ
  rintro user rfl
  obtain ⟨hmem, hmatches⟩ := Table.find?_eq_some (Option.some.inj hfound)
  simp only [Bool.and_eq_true, decide_eq_true_eq] at hmatches
  have hget : s.db.users.get? user.id = some user := Table.get?_of_mem hmem
  exact ⟨⟨address, hk, _, List.mem_cons_self, user, hget, hmatches.2, hmatches.1⟩, _,
    List.mem_cons_self, hget⟩

theorem stands_setPassword {id : Uuid} {password : String}
    (h : SessionOf cx k id own ∧ KnowsPassword cx k id own ∨ HoldsLink cx k id own .passwordReset) :
    (UsersService.setPassword cx id password).Only (Stands cx k own) := by
  have hset : ∀ hash, Stands cx k own (.sql (.users (.setPasswordHash id hash))) := fun _ ↦
    stands_sql.mpr fun _ hown ↦
      h.imp (fun hboth ↦ ⟨hboth.1.mono hown, hboth.2.mono hown⟩) (·.mono hown)
  refine .bind ?_ fun _ ↦ .bind only_rejectPasswordIfPolicyViolation fun _ ↦ ?_
  · simp [UsersService.require, stands_sql, Sql.Warrant, UsersSql.Warrant]
  · simp [hashBlocking, hset]

theorem stands_invalidate {u : Uuid} {purpose : TokenPurpose} (h : HoldsLink cx k u own purpose) :
    (OneTimeTokenService.invalidate u purpose).Only (Stands cx k own) :=
  only_sql.mpr (stands_sql.mpr fun _ hown ↦ .inr (h.mono hown))

theorem guards_reset {token newPassword : String} (hk : k.token? = some token) :
    Guards cx i k own (PasswordResetService.reset cx token newPassword) := by
  apply traced_bind.mpr
  apply traced_redeem_warranted hk
  intro t own₁ hholds
  rw [← Prog.bind_assoc]
  apply traced_bind.mpr
  apply traced_readUser
  rintro user own₂ h₂ hid - - -
  have hholds : HoldsLink cx k user.id own₂ .passwordReset := hid ▸ hholds.mono h₂
  apply guards_of_only
  refine .bind (stands_setPassword (.inr hholds)) fun _ ↦ .bind ?_ fun _ ↦ ?_
  · exact only_sql.mpr (stands_sql.mpr fun _ hown ↦ .inr (hholds.mono hown))
  · exact .bind (stands_invalidate hholds) fun _ ↦ by simp

theorem guards_change {actor : AuthUser} (hsession : SessionOf cx k actor.id own)
    {current new : String} (hk : k.password? = some current) :
    Guards cx i k own (PasswordResetService.change cx actor current new) := by
  apply traced_bind.mpr
  apply traced_currentUser_warranted
  intro user own₁ h₁ hid hseen
  refine traced_bind.mpr (traced_ensure_warranted fun hverified ↦ guards_of_only ?_)
  rw [← hid] at hsession hseen
  have hknows := knowsPassword_of_seen hk hseen hverified
  exact .bind (stands_setPassword (.inl ⟨hsession.mono h₁, hknows⟩)) fun _ ↦ by simp

theorem guards_forgot {email : String} (hk : k.address? = some email) :
    Guards cx i k own (PasswordResetService.forgot cx email) := by
  apply traced_bind.mpr
  apply traced_findByEmail_warranted hk
  intro found own₁ hfound
  cases found with
  | none => trivial
  | some user =>
      obtain ⟨hnamed, -⟩ := hfound user rfl
      apply guards_of_only
      refine only_ite.mpr ⟨fun _ ↦ .bind ?_ fun recent ↦ ?_, fun _ ↦ trivial⟩
      · simp [OneTimeTokenService.issuedWithin, stands_sql, Sql.Warrant, AuthTokenSql.Warrant]
      · refine only_ite.mpr ⟨fun _ ↦ trivial, fun _ ↦ ?_⟩
        exact (stands_issue .passwordReset (.inl hnamed)).bind fun _ ↦ by simp

theorem guards_verify {token : String} (hk : k.token? = some token) :
    Guards cx i k own (EmailVerificationService.verify cx token) := by
  apply traced_bind.mpr
  apply traced_redeem_warranted hk
  intro t own₁ hholds
  exact guards_of_only (only_sql.mpr (stands_sql.mpr fun _ hown ↦ .inl (hholds.mono hown)))

theorem guards_resend {actor : AuthUser} (hspeaks : SpeaksFor cx k actor.id own) :
    Guards cx i k own (EmailVerificationService.resend cx actor) := by
  apply traced_bind.mpr
  apply traced_currentUser_warranted
  intro user own₁ h₁ hid _
  rw [← hid] at hspeaks
  apply guards_of_only
  exact only_ite.mpr ⟨fun _ ↦ trivial, fun _ ↦ stands_sendVerification (.inr (hspeaks.mono h₁))⟩

theorem guards_requestChange {actor : AuthUser} (hsession : SessionOf cx k actor.id own)
    {current newEmail : String} (hk : k.password? = some current) :
    Guards cx i k own (EmailVerificationService.requestChange cx actor current newEmail) := by
  apply traced_bind.mpr
  apply traced_currentUser_warranted
  intro user own₁ h₁ hid hseen
  refine traced_bind.mpr (traced_ensure_warranted fun hverified ↦ guards_of_only ?_)
  rw [← hid] at hsession hseen
  have hknows := knowsPassword_of_seen hk hseen hverified
  refine .bind (by simp) fun _ ↦ .bind ?_ fun taken ↦ .bind (by simp) fun _ ↦ ?_
  · simp [UsersService.findByEmail, stands_sql, Sql.Warrant, UsersSql.Warrant]
  · refine (stands_issue .emailChange ?_).bind fun _ ↦ by simp
    exact ⟨hsession.mono h₁, hknows⟩

theorem guards_confirmChange {token : String} (hk : k.token? = some token) :
    Guards cx i k own (EmailVerificationService.confirmChange cx token) := by
  apply traced_bind.mpr
  apply traced_redeem_warranted hk
  intro t own₁ hholds
  apply guards_of_only
  refine .bind (by simp) fun newEmail ↦ .bind (.bind ?_ fun _ ↦ only_orThrow) fun _ ↦ ?_
  · exact only_sql.mpr (stands_sql.mpr fun _ hown ↦ hholds.mono hown)
  · exact stands_invalidate hholds

theorem guards_login {email password : String} (haddress : k.address? = some email)
    (hpassword : k.password? = some password) :
    Guards cx i k own (SessionService.login cx email password) := by
  apply traced_bind.mpr
  apply traced_findByEmail_warranted haddress
  intro found own₁ hfound
  refine traced_bind.mpr (traced_okOr_warranted fun user huser ↦ guards_of_only ?_)
  obtain ⟨hnamed, hseen⟩ := hfound user huser
  refine .bind ?_ fun _ ↦ .bind (by simp) fun _ ↦ only_ite.mpr ⟨fun hverified ↦ ?_, fun _ ↦ ?_⟩
  · unfold SessionService.isLocked
    split <;> simp
  · have hknows := knowsPassword_of_seen hpassword hseen hverified
    have hreset : Stands cx k own₁ (.sql (.users (.resetFailedLogins user.id))) :=
      stands_sql.mpr fun _ hown ↦ ⟨hnamed.mono hown, hknows.mono hown⟩
    simp only [SessionService.signIn, only_sql_bind, only_ensure_bind, only_ite]
    refine ⟨hreset, fun _ _ _ ↦ ⟨fun _ ↦ ?_, fun _ ↦ ?_⟩⟩
    · exact (stands_issue .twoFactorPending ⟨hnamed, hknows⟩).bind fun _ ↦ trivial
    · exact (only_issueJwt stands_clock).bind fun _ ↦ trivial
  · have hrecord : ∀ max lockout, Stands cx k own₁
        (.sql (.users (.recordFailedLogin user.id max lockout))) := fun _ _ ↦
      stands_sql.mpr fun _ hown ↦ hnamed.mono hown
    simp [SessionService.wrongPassword, hrecord]

end Links

/-! ## Two-factor, passkeys and QR login -/

section SecondFactors

variable {cx : Context} {i : ℕ} {k : Request} {own : List AppEvent}

theorem guards_beginSetup {actor : AuthUser} (hsession : SessionOf cx k actor.id own) :
    Guards cx i k own (TotpService.beginSetup cx actor) := by
  apply traced_bind.mpr
  apply traced_readUser
  rintro user own₁ h₁ hid - - -
  rw [← hid] at hsession
  have hset : ∀ secret, Stands cx k own₁
      (.sql (.users (.setPendingTotpSecret user.id secret))) := fun _ ↦
    stands_sql.mpr fun _ hown ↦ (hsession.mono h₁).mono hown
  apply guards_of_only
  simp [hset]

theorem guards_confirmSetup {actor : AuthUser} (hsession : SessionOf cx k actor.id own)
    {code : String} : Guards cx i k own (TotpService.confirmSetup cx actor code) := by
  apply traced_bind.mpr
  apply traced_readUser
  rintro user own₁ h₁ hid - - -
  rw [← hid] at hsession
  have henable : Stands cx k own₁ (.sql (.users (.enableTotp user.id))) :=
    stands_sql.mpr fun _ hown ↦ (hsession.mono h₁).mono hown
  have hlock : Stands cx k own₁ (.sql (.recoveryCodes (.lockAll user.id))) :=
    stands_sql.mpr fun _ _ ↦ trivial
  have hcodes : ∀ found hashes, Stands cx k own₁
      (.sql (.recoveryCodes (.replaceAll user.id found hashes))) := fun _ _ ↦
    stands_sql.mpr fun _ hown ↦ (hsession.mono h₁).mono hown
  apply guards_of_only
  simp [henable, hlock, hcodes]

theorem guards_disable {actor : AuthUser} (hsession : SessionOf cx k actor.id own)
    {current : String} (hk : k.password? = some current) :
    Guards cx i k own (TotpService.disable cx actor current) := by
  apply traced_bind.mpr
  apply traced_readUser
  intro user own₁ h₁ hid _ _ hseen
  refine traced_bind.mpr (traced_ensure_warranted fun hverified ↦ guards_of_only ?_)
  rw [← hid] at hsession hseen
  have hknows := knowsPassword_of_seen hk hseen hverified
  have hdisable : Stands cx k own₁ (.sql (.users (.disableTotp user.id))) :=
    stands_sql.mpr fun _ hown ↦ ⟨(hsession.mono h₁).mono hown, hknows.mono hown⟩
  have hdelete : Stands cx k own₁ (.sql (.recoveryCodes (.deleteAll user.id))) :=
    stands_sql.mpr fun _ hown ↦ ⟨(hsession.mono h₁).mono hown, hknows.mono hown⟩
  simp [hdisable, hdelete]

theorem guards_verifyLogin {pendingToken code : String} (hk : k.token? = some pendingToken) :
    Guards cx i k own (TotpService.verifyLogin cx pendingToken code) := by
  apply traced_bind.mpr
  apply traced_peek_warranted hk
  intro claim own₁ hholds
  rw [← Prog.bind_assoc]
  apply traced_bind.mpr
  apply traced_readUser
  rintro user own₂ h₂ hid - - -
  rw [← hid] at hholds
  have hclaim : ∀ hash, Stands cx k own₂ (.sql (.recoveryCodes (.claim user.id hash))) := fun _ ↦
    stands_sql.mpr fun _ hown ↦ (hholds.mono h₂).mono hown
  have hredeem : ∀ hash, Stands cx k own₂
      (.sql (.authTokens (.claim .twoFactorPending hash))) := fun _ ↦
    stands_sql.mpr fun _ _ ↦ trivial
  apply guards_of_only
  refine .bind (by simp) fun secret ↦ .bind ?_ fun valid ↦ .bind (by simp) fun _ ↦ ?_
  · simp only [TotpService.checkCode, ask_bind, only_stmt]
    refine ⟨stands_verifyCode _ _ _, fun accepted ↦ ?_⟩
    cases accepted <;> simp [hclaim]
  · exact .bind (by simp [OneTimeTokenService.redeem, hredeem]) fun _ ↦ only_issueJwt stands_clock

theorem stands_storeChallenge {kind : ChallengeKind} {userId : Option Uuid} {stateJson : String}
    (h : ∀ u, userId = some u → SessionOf cx k u own) :
    (PasskeysService.storeChallenge cx kind userId stateJson).Only (Stands cx k own) := by
  have hinsert : ∀ id expiresAt createdAt, Stands cx k own (.sql (.challenges
      (.insert ⟨id, kind, userId, stateJson, expiresAt, createdAt⟩))) := fun _ _ _ ↦
    stands_sql.mpr fun _ hown u hu ↦ (h u hu).mono hown
  have hexpire : ∀ cutoff, Stands cx k own (.sql (.challenges (.deleteExpired cutoff))) :=
    fun _ ↦ stands_sql.mpr fun _ _ ↦ trivial
  simp [PasskeysService.storeChallenge, hinsert, hexpire]

theorem guards_beginRegistration {actor : AuthUser} (hsession : SessionOf cx k actor.id own) :
    Guards cx i k own (PasskeysService.beginRegistration cx actor) := by
  apply traced_bind.mpr
  apply traced_readUser
  rintro user own₁ h₁ hid - - -
  rw [← hid] at hsession
  have hlist : Stands cx k own₁ (.sql (.passkeys (.listByUser user.id))) :=
    stands_sql.mpr fun _ _ ↦ trivial
  apply guards_of_only
  refine .bind (by simp [hlist]) fun rows ↦ .bind (by simp) fun _ ↦ .bind (by simp) fun n ↦ ?_
  refine .bind (by simp) fun state ↦ stands_storeChallenge ?_
  rintro u ⟨⟩
  exact hsession.mono h₁

theorem guards_finishRegistration {actor : AuthUser} (hsession : SessionOf cx k actor.id own)
    {challengeId credential : String} {name : Option String} :
    Guards cx i k own
      (PasskeysService.finishRegistration cx actor challengeId credential name) := by
  have hclaim : Stands cx k own
      (.sql (.challenges (.claim challengeId .registration (some actor.id)))) :=
    stands_sql.mpr fun _ _ ↦ trivial
  have hinsert : ∀ id name credId json, Stands cx k own
      (.sql (.passkeys (.insert id actor.id name credId json))) := fun _ _ _ _ ↦
    stands_sql.mpr fun _ hown ↦ hsession.mono hown
  apply guards_of_only
  simp [PasskeysService.finishRegistration, PasskeysService.claimChallenge, Prog.bind_assoc, hclaim,
    hinsert]

theorem guards_passkeyDelete {actor : AuthUser} (hsession : SessionOf cx k actor.id own)
    {id : Uuid} : Guards cx i k own (PasskeysService.delete actor id) := by
  have hdelete : Stands cx k own (.sql (.passkeys (.delete actor.id id))) :=
    stands_sql.mpr fun _ hown ↦ hsession.mono hown
  apply guards_of_only
  simp [PasskeysService.delete, stands_sql, Sql.Warrant, PasskeySql.Warrant, hdelete]

theorem guards_updateCounters {result : AuthenticationResult}
    {passkeys : List (PasskeyRow × Passkey)}
    (h : ∀ entry ∈ passkeys, ∀ json, Stands cx k own
      (.sql (.passkeys (.updateAfterUse entry.1.id json)))) :
    (PasskeysService.updateCounters cx result passkeys).Only (Stands cx k own) := by
  induction passkeys with
  | nil => trivial
  | cons entry rest ih =>
      refine .bind ?_ fun _ ↦ ih fun e he ↦ h e (List.mem_cons_of_mem _ he)
      unfold PasskeysService.updateCounter
      split
      · exact only_sql.mpr (h entry List.mem_cons_self _)
      · trivial

theorem mem_of_decoded {rows : List PasskeyRow} {entry : PasskeyRow × Passkey}
    (h : entry ∈ PasskeysService.decoded cx rows) : entry.1 ∈ rows := by
  obtain ⟨row, hrow, hentry⟩ := List.mem_filterMap.mp h
  obtain ⟨passkey, -, rfl⟩ := Option.map_eq_some_iff.mp hentry
  exact hrow

theorem guards_finishLogin {challengeId credential : String}
    (hk : k = .passkeyLoginFinish challengeId credential) :
    Guards cx i k own (PasskeysService.finishLogin cx challengeId credential) := by
  apply traced_bind.mpr
  apply traced_bind.mpr
  apply traced_sql_warranted (by trivial)
  intro s₁ claimed _
  refine traced_bind.mpr (traced_okOr_warranted fun state _ ↦ ?_)
  refine traced_bind.mpr (traced_ensure_warranted fun _ ↦ (traced_ret _).mpr ?_)
  refine traced_bind.mpr (traced_okOr_warranted fun userId hidentify ↦ ?_)
  rw [← Prog.bind_assoc]
  apply traced_bind.mpr
  apply traced_readUser
  rintro user own₂ - hid - - -
  apply traced_bind.mpr
  apply traced_sql_warranted (by trivial)
  intro s₃ rows hrows
  apply guards_of_only
  refine .bind (by simp) fun result ↦ .bind (guards_updateCounters ?_) fun _ ↦ ?_
  · intro entry hentry json
    refine stands_sql.mpr fun own' hown ↦ ?_
    refine ⟨challengeId, credential, userId, hk, hidentify, _, hown List.mem_cons_self, ?_⟩
    have hlisted := mem_of_decoded hentry
    rw [← Option.some.inj hrows] at hlisted
    obtain ⟨hmem, howner⟩ := Table.mem_selectWhere.mp ((Table.mem_orderBy ..).mp hlisted)
    exact ⟨entry.1, hmem, rfl, by simpa [hid] using howner⟩
  · exact .bind (by simp) fun _ ↦ only_issueJwt stands_clock

theorem traced_findSession {id : String} {Q : QrSession → List AppEvent → Prop}
    (hQ : ∀ session own', own ⊆ own' →
      Seen (fun s ↦ s.db.qrSessions.get? id = some session) own' → Q session own') :
    Traced (machine cx) (Warranted cx) i k (QrLoginService.find id) Q (fun _ _ ↦ True) own := by
  apply traced_bind.mpr
  apply traced_sql_warranted (by trivial)
  intro s found hfound
  apply traced_okOr_warranted
  rintro session rfl
  exact hQ session _ (List.subset_cons_self _ _) ⟨_, List.mem_cons_self, Option.some.inj hfound⟩

theorem traced_findLive {id : String} {Q : QrSession → List AppEvent → Prop}
    (hQ : ∀ session own', own ⊆ own' →
      Seen (fun s ↦ s.db.qrSessions.get? id = some session) own' → Q session own') :
    Traced (machine cx) (Warranted cx) i k (QrLoginService.findLive id) Q
      (fun _ _ ↦ True) own := by
  apply traced_bind.mpr
  apply traced_findSession
  intro session own₁ h₁ hseen
  refine traced_bind.mpr (traced_clock fun s₂ ↦ ⟨trivial, traced_bind.mpr ?_⟩)
  refine traced_ensure_warranted fun _ ↦ hQ session _ ?_ (hseen.mono (List.subset_cons_self _ _))
  exact fun x hx ↦ List.mem_cons_of_mem _ (h₁ hx)

theorem stands_findLive {id : String} :
    (QrLoginService.findLive id).Only (Stands cx k own) := by
  refine .bind ?_ fun session ↦ by simp
  simp [QrLoginService.find, stands_sql, Sql.Warrant, QrSql.Warrant]

theorem guards_scan {actor : AuthUser} (hsession : SessionOf cx k actor.id own) {id : String} :
    Guards cx i k own (QrLoginService.scan actor id) := by
  have hmark : Stands cx k own (.sql (.qrSessions (.markScanned id actor.id))) :=
    stands_sql.mpr fun _ hown ↦ hsession.mono hown
  apply guards_of_only
  refine .bind stands_findLive fun session ↦ .bind ?_ fun _ ↦ trivial
  unfold QrLoginService.claimScan
  split
  · refine only_sql_bind.mpr ⟨hmark, fun marked ↦ only_ite.mpr ⟨fun _ ↦ trivial, fun _ ↦ ?_⟩⟩
    exact stands_findLive.bind fun _ ↦ by simp
  all_goals simp

theorem guards_approve {actor : AuthUser} (hsession : SessionOf cx k actor.id own)
    {id code : String} : Guards cx i k own (QrLoginService.approve actor id code) := by
  apply traced_bind.mpr
  apply traced_findLive
  intro session own₁ h₁ hseen
  refine traced_bind.mpr (traced_ensure_warranted fun hscanned ↦ guards_of_only ?_)
  have hresolve : Stands cx k own₁ (.sql (.qrSessions (.resolve id actor.id .approved))) :=
    stands_sql.mpr fun _ hown ↦ (hsession.mono h₁).mono hown
  have hwrong : Stands cx k own₁ (.sql (.qrSessions (.recordWrongCode id))) := by
    refine stands_sql.mpr fun own' hown ↦ ⟨actor.id, (hsession.mono h₁).mono hown, ?_⟩
    obtain ⟨e, he, hget⟩ := hseen
    exact ⟨e, hown he, session, hget, hscanned.2⟩
  exact only_ite.mpr ⟨fun _ ↦ by simp [QrLoginService.wrongCode, hwrong],
    fun _ ↦ by simp [hresolve]⟩

theorem guards_reject {actor : AuthUser} (hsession : SessionOf cx k actor.id own) {id : String} :
    Guards cx i k own (QrLoginService.reject actor id) := by
  have hresolve : Stands cx k own (.sql (.qrSessions (.resolve id actor.id .rejected))) :=
    stands_sql.mpr fun _ hown ↦ hsession.mono hown
  apply guards_of_only
  refine stands_findLive.bind fun session ↦ .bind (by simp [QrLoginService.requireScannedBy])
    fun _ ↦ ?_
  simp [hresolve]

theorem guards_poll {id : String} {secret : Option String} (hk : k = .qrPoll id secret) :
    Guards cx i k own (QrLoginService.poll cx id secret) := by
  apply traced_bind.mpr
  apply traced_findSession
  rintro session own₁ - hseen
  refine traced_bind.mpr (traced_ensure_warranted fun hsecret ↦ guards_of_only ?_)
  obtain ⟨raw, rfl, hhash⟩ := Option.map_eq_some_iff.mp hsecret
  have hconsume : Stands cx k own₁ (.sql (.qrSessions (.consume id))) := by
    refine stands_sql.mpr fun own' hown ↦ ⟨raw, hk, ?_⟩
    obtain ⟨e, he, hget⟩ := hseen
    exact ⟨e, hown he, session, hget, hhash.symm⟩
  split
  · trivial
  · trivial
  · simp only [only_clock_bind, only_ite]
    refine ⟨stands_clock, fun _ ↦ ⟨fun _ ↦ trivial, fun _ ↦ ⟨fun _ ↦ ?_, fun _ ↦ trivial⟩⟩⟩
    refine only_sql_bind.mpr ⟨hconsume, fun consumed ↦ ?_⟩
    cases consumed with
    | none => trivial
    | some userId =>
        refine .bind ?_ fun _ ↦ .bind (by simp) fun _ ↦ .bind (by simp) fun _ ↦ ?_
        · exact only_sql.mpr (stands_sql.mpr fun _ _ ↦ trivial)
        · exact (only_issueJwt stands_clock).bind fun _ ↦ trivial

end SecondFactors

/-! ## OAuth -/

section OAuth

variable {cx : Context} {i : ℕ} {k : Request} {own : List AppEvent}

theorem guards_start {provider : Provider} {userId : Option Uuid} {path : String}
    (h : ∀ u, userId = some u → SessionOf cx k u own) :
    Guards cx i k own (OAuthService.start cx provider userId path) := by
  have hinsert : ∀ stateHash verifier expiresAt createdAt, Stands cx k own (.sql (.oauthStates
      (.insert ⟨stateHash, provider, verifier, userId, path, expiresAt, createdAt⟩))) :=
    fun _ _ _ _ ↦ stands_sql.mpr fun _ hown u hu ↦ (h u hu).mono hown
  have hexpire : ∀ cutoff, Stands cx k own (.sql (.oauthStates (.deleteExpired cutoff))) :=
    fun _ ↦ stands_sql.mpr fun _ _ ↦ trivial
  apply guards_of_only
  simp only [OAuthService.start, only_ensure_bind, only_generateToken_bind, only_clock_bind]
  refine fun _ ↦ ⟨stands_draw, fun _ ↦ ⟨stands_draw, fun _ ↦ ⟨stands_clock, fun _ ↦ ?_⟩⟩⟩
  exact .bind (by simp [OAuthService.insertState, hinsert, hexpire]) fun _ ↦ by simp

theorem guards_unlink {actor : AuthUser} (hsession : SessionOf cx k actor.id own)
    {provider : Provider} : Guards cx i k own (OAuthService.unlink actor provider) := by
  have hdelete : Stands cx k own (.sql (.oauthIdentities (.delete actor.id provider))) :=
    stands_sql.mpr fun _ hown ↦ hsession.mono hown
  apply guards_of_only
  simp [OAuthService.unlink, stands_sql, Sql.Warrant, OAuthIdentitySql.Warrant, hdelete]

theorem guards_exchange {code : String} :
    Guards cx i k own (OAuthService.exchange cx code) := by
  apply guards_of_only
  refine .bind ?_ fun _ ↦ .bind (by simp) fun _ ↦ .bind ?_ fun _ ↦ .bind (by simp) fun _ ↦ ?_
  · exact only_sql.mpr (stands_sql.mpr fun _ _ ↦ trivial)
  · exact only_sql.mpr (stands_sql.mpr fun _ _ ↦ trivial)
  · exact only_issueJwt stands_clock

section Callback

variable {provider : Provider} {query : CallbackQuery} {profile : ProviderProfile} {u : Uuid}
  {redirect : String} (hk : k = .oauthCallback provider query (some profile))
include hk

theorem guards_grantFor (hheld : ∃ e ∈ own, LeavesHeld cx provider profile.providerUserId u e) :
    Guards cx i k own (OAuthService.grantFor cx u redirect) := by
  have hinsert : ∀ codeHash expiresAt createdAt, Stands cx k own (.sql (.loginGrants
      (.insert ⟨codeHash, u, expiresAt, none, createdAt⟩))) := by
    intro codeHash expiresAt createdAt
    refine stands_sql.mpr fun own' hown ↦ ⟨provider, query, profile, hk, ?_⟩
    obtain ⟨e, he, hleaves⟩ := hheld
    exact ⟨e, hown he, hleaves⟩
  have hexpire : ∀ cutoff, Stands cx k own (.sql (.loginGrants (.deleteExpired cutoff))) :=
    fun _ ↦ stands_sql.mpr fun _ _ ↦ trivial
  apply guards_of_only
  refine .bind (.mapErr ?_) fun _ ↦ .bind (by simp) fun _ ↦ .bind (by simp) fun _ ↦ ?_
  · exact only_sql.mpr (stands_sql.mpr fun _ _ ↦ trivial)
  refine .bind (by simp) fun _ ↦ .bind (by simp [generateToken]) fun grant ↦ ?_
  refine .bind (by simp [clock]) fun now ↦ .bind (.mapErr ?_) fun _ ↦ trivial
  simp [OAuthService.insertGrant, hinsert, hexpire]

theorem traced_link_warranted (hvouched : Vouched cx provider profile u own)
    {Q : Unit → List AppEvent → Prop}
    (hQ : ∀ own', (∃ e ∈ own', LeavesHeld cx provider profile.providerUserId u e) → Q () own') :
    Traced (machine cx) (Warranted cx) i k (OAuthService.link u provider profile) Q
      (fun _ _ ↦ True) own := by
  refine traced_bind.mpr (traced_mapErr.mpr ?_)
  apply traced_sql_warranted
  · exact ⟨query, profile, hk, rfl, hvouched⟩
  intro s linked hlinked
  refine traced_ensure_warranted fun htrue ↦ hQ _ ⟨_, List.mem_cons_self, ?_⟩
  obtain ⟨hanswer, hget⟩ := OAuthIdentitySql.run_insert s.now s.db.oauthIdentities u provider
    profile.providerUserId profile.email
  have hfree : s.db.oauthIdentities.get? (provider, profile.providerUserId) = none := by
    simpa [htrue] using hanswer.symm.trans hlinked
  rw [hfree, Option.getD_none] at hget
  exact ⟨_, hget, rfl⟩

theorem traced_accountFor_warranted {email : String}
    (hvouches : profile.VouchesFor cx (cx.normalizeEmail email)) {Q : User → List AppEvent → Prop}
    (hQ : ∀ user own', Vouched cx provider profile user.id own' → Q user own') :
    Traced (machine cx) (Warranted cx) i k (OAuthService.accountFor cx email profile) Q
      (fun _ _ ↦ True) own := by
  refine traced_bind.mpr (traced_mapErr.mpr ?_)
  apply traced_sql_warranted (by trivial)
  intro s found hfound
  cases found with
  | some existing =>
      refine traced_bind.mpr (traced_ensure_warranted fun _ ↦ ?_)
      refine traced_bind.mpr (traced_ensure_warranted fun hverified ↦ ?_)
      obtain ⟨hmem, hmatches⟩ := Table.find?_eq_some (Option.some.inj hfound)
      simp only [Bool.and_eq_true, decide_eq_true_eq] at hmatches
      refine hQ existing _ (.inr ⟨_, hvouches, _, List.mem_cons_self, .inl ⟨rfl, existing, ?_⟩⟩)
      exact ⟨Table.get?_of_mem hmem, hmatches.2, hmatches.1, hverified⟩
  | none =>
      refine traced_mapErr.mpr (traced_bind.mpr ((traced_ask _).mpr
        ⟨fun s₁ ↦ ⟨trivial, traced_bind.mpr ?_⟩, by rintro _ ⟨⟩⟩))
      apply traced_sql_warranted
      · exact .inr (.inr ⟨hk ▸ rfl, rfl⟩)
      intro s₂ created hcreated
      cases created with
      | error e => trivial
      | ok user =>
          obtain ⟨rfl, hnone, hget⟩ := UsersSql.create_eq_ok hcreated
          refine hQ _ _ (.inr ⟨_, hvouches, _, List.mem_cons_self, .inr ⟨⟨_, rfl⟩, hnone, ?_⟩⟩)
          exact ⟨_, hget, rfl⟩

theorem guards_resolve {linkingUser : Option Uuid}
    (hclaimed : ∀ u, linkingUser = some u → ∃ e ∈ own, ClaimedFor provider u e) :
    Guards cx i k own (OAuthService.resolve cx provider profile linkingUser redirect) := by
  refine traced_bind.mpr (traced_mapErr.mpr ?_)
  apply traced_sql_warranted (by trivial)
  intro s found hfound
  cases found with
  | some identity =>
      cases linkingUser with
      | some userId => exact guards_of_only (only_ite.mpr ⟨fun _ ↦ trivial, fun _ ↦ trivial⟩)
      | none =>
          apply guards_grantFor hk
          exact ⟨_, List.mem_cons_self, identity, Option.some.inj hfound, rfl⟩
  | none =>
      cases linkingUser with
      | some userId =>
          obtain ⟨e, he, hclaim⟩ := hclaimed userId rfl
          refine traced_bind.mpr (traced_mapErr.mpr ?_)
          apply traced_sql_warranted (by trivial)
          intro s₂ found₂ _
          refine traced_bind.mpr (traced_okOr_warranted fun _ _ ↦ traced_bind.mpr ?_)
          apply traced_link_warranted hk
          · exact .inl ⟨e, by simp [he], hclaim⟩
          · exact fun _ _ ↦ trivial
      | none =>
          refine traced_bind.mpr (traced_okOr_warranted fun email hemail ↦ ?_)
          obtain ⟨hraw, hverified⟩ := Option.filter_eq_some_iff.mp hemail
          apply traced_bind.mpr
          apply traced_accountFor_warranted hk ⟨hverified, email, hraw, rfl⟩
          intro user own₁ hvouched
          apply traced_bind.mpr
          exact traced_link_warranted hk hvouched fun own₂ hheld ↦ guards_grantFor hk hheld

end Callback

theorem guards_handleCallback {provider : Provider} {query : CallbackQuery}
    {answer : Option ProviderProfile} (hk : k = .oauthCallback provider query answer) :
    Guards cx i k own (OAuthService.handleCallback cx provider query (.answering answer)) := by
  have hcallback : Guards cx i k own
      (OAuthService.callback cx provider query (.answering answer)) := by
    refine traced_bind.mpr (traced_okOr_warranted fun stateRaw _ ↦ ?_)
    refine traced_bind.mpr (traced_mapErr.mpr ?_)
    apply traced_sql_warranted (by trivial)
    intro s claimed hclaimed
    refine traced_bind.mpr (traced_okOr_warranted fun state hstate ↦ ?_)
    subst hstate
    obtain ⟨hget, hlive, -⟩ := OAuthStateSql.claim_eq_some hclaimed
    refine traced_bind.mpr (traced_ensure_warranted fun hprovider ↦ ?_)
    refine traced_bind.mpr (traced_ensure_warranted fun _ ↦ ?_)
    refine traced_bind.mpr (traced_okOr_warranted fun _ _ ↦ ?_)
    refine traced_bind.mpr (traced_okOr_warranted fun _ _ ↦ ?_)
    refine traced_bind.mpr (traced_okOr_warranted fun profile hprofile ↦ ?_)
    obtain rfl : answer = some profile := hprofile
    refine guards_resolve hk fun u hu ↦ ⟨_, List.mem_cons_self, state, ?_, hprovider, hu⟩
    exact Option.filter_eq_some_iff.mpr ⟨hget, decide_eq_true hlive⟩
  apply traced_bind.mpr
  apply traced_bindBoth.mpr
  exact hcallback.mono (fun _ _ _ ↦ trivial) fun _ _ _ ↦ trivial

end OAuth

/-! ## All requests -/

theorem guards_cleanup {cx : Context} {i : ℕ} {own : List AppEvent} :
    Guards cx i .cleanup own runCleanup := by
  apply guards_of_only
  simp [runCleanup, stands_sql, Sql.Warrant, AuthTokenSql.Warrant, QrSql.Warrant]

theorem Guards.andThen {cx : Context} {i : ℕ} {k : Request} {own : List AppEvent} {α β : Type}
    {p : Req α} {f : α → β} (h : Guards cx i k own p) :
    Guards cx i k own (do let a ← p; pure (f a)) :=
  traced_bind.mpr (h.mono (fun _ _ _ ↦ trivial) fun _ _ _ ↦ trivial)

theorem guards_handle {cx : Context} {i : ℕ} (k : Request) : Guards cx i k [] (handle cx k) := by
  have admin {caller : Presented} (hk : k.caller? = some caller) {f : AuthUser → Req Response}
      (hf : ∀ actor own, Administers cx k actor.id own → Guards cx i k own (f actor)) :
      Guards cx i k [] (do let actor ← adminUser cx caller false; f actor) :=
    traced_bind.mpr (traced_adminUser_warranted hk fun actor own _ hadmin ↦ hf actor own hadmin)
  have session {caller : Presented} (hk : k.caller? = some caller) {f : AuthUser → Req Response}
      (hf : ∀ actor own, SessionOf cx k actor.id own → Guards cx i k own (f actor)) :
      Guards cx i k [] (do let actor ← sessionUser cx caller false; f actor) :=
    traced_bind.mpr (traced_sessionUser_warranted hk fun actor own _ h ↦ hf actor own h)
  have auth {caller : Presented} (hk : k.caller? = some caller) {f : AuthUser → Req Response}
      (hf : ∀ actor own, SpeaksFor cx k actor.id own → Guards cx i k own (f actor)) :
      Guards cx i k [] (do let actor ← authUser cx caller false; f actor) :=
    traced_bind.mpr (traced_authUser_warranted hk fun actor own _ h _ _ ↦ hf actor own h)
  cases k with
  | createUser => exact admin rfl fun _ _ h ↦ (guards_create h).andThen
  | updateUser => exact admin rfl fun _ _ h ↦ (guards_update h).andThen
  | deleteUser => exact admin rfl fun _ _ h ↦ (guards_delete h).andThen
  | updateProfile => exact auth rfl fun _ _ h ↦ (guards_updateProfile h).andThen
  | bootstrapAdmin => exact (guards_bootstrapAdmin rfl).andThen
  | register => exact (guards_register rfl).andThen
  | login => exact (guards_login rfl rfl).andThen
  | twoFactorSetup => exact session rfl fun _ _ h ↦ (guards_beginSetup h).andThen
  | twoFactorEnable => exact session rfl fun _ _ h ↦ (guards_confirmSetup h).andThen
  | twoFactorDisable => exact session rfl fun _ _ h ↦ (guards_disable h rfl).andThen
  | twoFactorVerify => exact (guards_verifyLogin rfl).andThen
  | forgotPassword => exact (guards_forgot rfl).andThen
  | resetPassword => exact (guards_reset rfl).andThen
  | changePassword => exact session rfl fun _ _ h ↦ (guards_change h rfl).andThen
  | inviteUser => exact admin rfl fun _ _ h ↦ (guards_invite h).andThen
  | verifyEmail => exact (guards_verify rfl).andThen
  | resendVerification => exact auth rfl fun _ _ h ↦ (guards_resend h).andThen
  | requestEmailChange => exact session rfl fun _ _ h ↦ (guards_requestChange h rfl).andThen
  | confirmEmailChange => exact (guards_confirmChange rfl).andThen
  | oauthLogin => exact (guards_start (by rintro _ ⟨⟩)).andThen
  | oauthLink =>
      refine session rfl fun _ _ h ↦ (guards_start ?_).andThen
      rintro _ ⟨⟩
      exact h
  | oauthCallback => exact (guards_handleCallback rfl).andThen
  | oauthExchange => exact guards_exchange.andThen
  | oauthUnlink => exact session rfl fun _ _ h ↦ (guards_unlink h).andThen
  | passkeyRegisterBegin => exact session rfl fun _ _ h ↦ (guards_beginRegistration h).andThen
  | passkeyRegisterFinish => exact session rfl fun _ _ h ↦ (guards_finishRegistration h).andThen
  | passkeyLoginBegin =>
      refine (guards_of_only (.bind (by simp) fun _ ↦ .bind (by simp) fun _ ↦ ?_)).andThen
      exact stands_storeChallenge (by rintro _ ⟨⟩)
  | passkeyLoginFinish => exact (guards_finishLogin rfl).andThen
  | passkeyDelete => exact session rfl fun _ _ h ↦ (guards_passkeyDelete h).andThen
  | qrCreate =>
      refine (guards_of_only ?_).andThen
      simp [QrLoginService.create, stands_sql, Sql.Warrant, QrSql.Warrant]
  | qrScan => exact session rfl fun _ _ h ↦ (guards_scan h).andThen
  | qrApprove => exact session rfl fun _ _ h ↦ (guards_approve h).andThen
  | qrReject => exact session rfl fun _ _ h ↦ (guards_reject h).andThen
  | qrPoll => exact (guards_poll rfl).andThen
  | cleanup => exact guards_cleanup.andThen

theorem traces_warranted (cx : Context) (k : Request) :
    Traces (machine cx) (Warranted cx) k (handle cx) := fun _ ↦
  (guards_handle k).mono (fun _ _ _ _ ↦ trivial) fun _ _ _ _ ↦ trivial

/-- In every run each event meets what its warrant asks of the events of its own thread. -/
theorem Reached.warranted {cx : Context} {s : Server} {c : AppConfig} (hc : Reached cx s c)
    {later earlier : List AppEvent} {e : AppEvent}
    (hhist : c.world.history = later ++ e :: earlier) : Warranted cx e (ownEvents e.tid earlier) :=
  Along.of_append (P := AlongOwn (Warranted cx)) (hhist ▸ hc.traces fun k _ ↦ traces_warranted cx k)

/-- Whatever requests are in flight, every statement that writes is run by a thread that has
shown before, by itself, what the table asks for. -/
theorem writes_warranted {cx : Context} {s : Server} {c : AppConfig} (hc : Reached cx s c)
    {later earlier : List AppEvent} {i : ℕ} {k : Request} {q : Sql} {b : Server}
    (hhist : c.world.history = later ++ .ran i k (.sql q) b :: earlier) :
    q.Warrant cx k (ownEvents i earlier) :=
  hc.warranted hhist

/-- A password is written. -/
def writesPassword : AppEvent → Bool
  | .ran _ _ (.sql (.users (.setPasswordHash _ _))) _ => true
  | _ => false

/-- Ada changes her password, which she may because she gave the current one. -/
theorem writes_warranted_password : ∃ c, Reached .sample QrSample.start c ∧
    ∃ later i k id hash b earlier, c.world.history =
      later ++ .ran i k (.sql (.users (.setPasswordHash id hash))) b :: earlier ∧
        (Sql.users (.setPasswordHash id hash)).Warrant .sample k (ownEvents i earlier) := by
  obtain ⟨c, hc, htest⟩ : ∃ c, Reached .sample QrSample.start c ∧
      c.world.history.any writesPassword = true :=
    Reachable.of_schedule (PendingSample.changed 0) (fun c ↦ c.world.history.any writesPassword)
      (by decide) (by decide)
  obtain ⟨e, he, hwrites⟩ := List.any_eq_true.mp htest
  obtain ⟨later, earlier, hhist⟩ := List.append_of_mem he
  unfold writesPassword at hwrites
  split at hwrites
  next i k id hash b =>
    exact ⟨c, hc, later, i, k, id, hash, b, earlier, hhist, writes_warranted hc hhist⟩
  next => cases hwrites

end ApiStarter
