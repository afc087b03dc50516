import ApiStarter.AccessControl
import ApiStarter.Links
import ApiStarter.SessionTokens

/-!
# Access tokens are earned

Five requests answer with an access token.  Each names what the request has
shown for it: a password where no second factor is asked for, the second
factor after a password, the account of a provider, a passkey, or the approval
of a QR session by a session of the same account.  Where tokens cannot be
forged every session is thereby rooted in a password, a provider's account or a
passkey of its account.
-/

namespace ApiStarter

open Interleave Interleave.Prog Relational

/-! ## What a token was earned with -/

section Earning

variable (cx : Context) (token : Claims) (own : List AppEvent)

/-- The token is made for the account as `row` has it, which the thread has read live and
active. -/
structure IssuedFor (row : User) : Prop where
  sub : token.sub = row.id
  role : token.role = row.role
  version : token.tv = row.tokenVersion
  lifetime : token.exp = token.iat + cx.jwtTtlSecs
  issued : Seen (fun s ↦ token.iat = s.now.timestamp) own
  read : Seen (fun s ↦ s.db.users.get? row.id = some row) own
  live : row.isLive = true
  active : row.isActive = true

/-- The request's pending token was redeemed. -/
def SpendsPending (hash : String) (e : AppEvent) : Prop :=
  e.Ran fun q s ↦ q = .sql (.authTokens (.claim .twoFactorPending hash)) ∧
    linkIs hash (AuthToken.isRedeemable .twoFactorPending s.now) s

/-- A recovery code of the account was spent. -/
def SpendsRecoveryCode (u : Uuid) (hash : String) (e : AppEvent) : Prop :=
  e.Ran fun q s ↦ q = .sql (.recoveryCodes (.claim u hash)) ∧
    ∃ code ∈ s.db.recoveryCodes, code.matches u hash = true

def SpendsGrant (u : Uuid) (hash : String) (e : AppEvent) : Prop :=
  e.Ran fun q s ↦ q = .sql (.loginGrants (.claim hash)) ∧
    ∃ g, s.db.loginGrants.get? hash = some g ∧ g.userId = u ∧ g.usedAt = none ∧ s.now < g.expiresAt

def SpendsChallenge (id state : String) (e : AppEvent) : Prop :=
  e.Ran fun q s ↦ q = .sql (.challenges (.claim id .authentication none)) ∧
    ∃ challenge, s.db.challenges.get? id = some challenge ∧ challenge.kind = .authentication ∧
      challenge.stateJson = state ∧ s.now < challenge.expiresAt

/-- The authenticator's answer verifies against the passkeys stored for the account. -/
def VerifiesAgainst (u : Uuid) (credential state : String) (s : Server) : Prop :=
  ∃ rows : List PasskeyRow, (∀ row ∈ rows, row ∈ s.db.passkeys ∧ row.userId = u) ∧
    (cx.finishAuthentication credential state
      ((PasskeysService.decoded cx rows).map Prod.snd)).isSome = true

/-- The session was consumed, approved for the account and not expired. -/
def ConsumesFor (u : Uuid) (id : String) (e : AppEvent) : Prop :=
  e.Ran fun q s ↦ q = .sql (.qrSessions (.consume id)) ∧
    ∃ session, s.db.qrSessions.get? id = some session ∧ session.consumable s.now = true ∧
      session.userId = some u

/-- What entitles a request to its token. -/
inductive Earned : Request → Prop
  | password (email password : String) (row : User) (hrow : IssuedFor cx token own row)
      (hemail : row.email = cx.normalizeEmail email)
      (hpassword : cx.verifyPassword password row.passwordHash = true)
      (hunlocked : ∀ lockedUntil, row.lockedUntil = some lockedUntil →
        Seen (fun s ↦ lockedUntil ≤ s.now) own)
      (hverified : cx.requireVerifiedEmail = true → row.isEmailVerified = true)
      (hfactor : row.totpEnabled = false) : Earned (.login email password)
  | secondFactor (pendingToken code secret : String) (row : User)
      (hrow : IssuedFor cx token own row) (henabled : row.totpEnabled = true)
      (hsecret : row.totpSecret = some secret)
      (hpending : HoldsLink cx (.twoFactorVerify pendingToken code) row.id own .twoFactorPending)
      (hspent : ∃ e ∈ own, SpendsPending (cx.sha256 pendingToken) e)
      (hcode : Seen (fun s ↦ cx.checkTotp secret row.email code s.now = true) own ∨
        ∃ e ∈ own, SpendsRecoveryCode row.id (cx.sha256 code) e) :
      Earned (.twoFactorVerify pendingToken code)
  | provider (code : String) (row : User) (hrow : IssuedFor cx token own row)
      (hgrant : ∃ e ∈ own, SpendsGrant row.id (cx.sha256 code) e) : Earned (.oauthExchange code)
  | passkey (challengeId credential state : String) (row : User)
      (hrow : IssuedFor cx token own row) (hidentify : cx.identify credential = some row.id)
      (hchallenge : ∃ e ∈ own, SpendsChallenge challengeId state e)
      (hverifies : Seen (VerifiesAgainst cx row.id credential state) own)
      (hverified : cx.requireVerifiedEmail = true → row.isEmailVerified = true) :
      Earned (.passkeyLoginFinish challengeId credential)
  | approval (id secret : String) (row : User) (hrow : IssuedFor cx token own row)
      (hsecret : Seen (fun s ↦ ∃ session, s.db.qrSessions.get? id = some session ∧
        session.secretHash = cx.sha256 secret) own)
      (hconsumed : ∃ e ∈ own, ConsumesFor row.id id e)
      (hverified : cx.requireVerifiedEmail = true → row.isEmailVerified = true) :
      Earned (.qrPoll id (some secret))

end Earning

/-- A token is answered only to who has earned it. -/
def AnswersEarned (cx : Context) : AppEvent → List AppEvent → Prop
  | .answered _ k (.ok response) _, own =>
      ∀ token, issuedToken response = some token → Earned cx token own k
  | _, _ => True

/-! ## Walking through the sign-ins -/

section Walk

variable {cx : Context} {i : ℕ} {k : Request} {own : List AppEvent} {α ε : Type}

/-- Nothing is asked of what a thread does before it answers. -/
abbrev Leads (cx : Context) (i : ℕ) (k : Request) (own : List AppEvent)
    (p : Prog Statement.Res ε α) (Q : α → List AppEvent → Prop) : Prop :=
  Traced (machine cx) (AnswersEarned cx) i k p Q (fun _ _ ↦ True) own

theorem leads_sql {q : Sql} {Q : q.Res → List AppEvent → Prop}
    (hQ : ∀ s r, (q.run s.now s.db).1 = some r → Q r (.ran i k (.sql q) s :: own)) :
    @Traced _ _ _ _ _ _ _ (no_index q.Res) _ (machine cx) (AnswersEarned cx) i k (sql q) Q
      (fun _ _ ↦ True) own :=
  traced_sql (fun _ ↦ trivial) hQ (fun _ _ ↦ trivial) trivial

theorem leads_okOr {o : Option α} {e : ε} {Q : α → List AppEvent → Prop}
    (hQ : ∀ a, o = some a → Q a own) : Leads cx i k own (okOr e o) Q :=
  (traced_okOr ..).mpr ⟨hQ, fun _ ↦ trivial⟩

theorem leads_ensure {c : Prop} [Decidable c] {e : ε} {Q : Unit → List AppEvent → Prop}
    (hQ : c → Q () own) : Leads cx i k own (ensure c e) Q :=
  (traced_ensure ..).mpr ⟨hQ, fun _ ↦ trivial⟩

/-- A part of which nothing is remembered. -/
theorem leads_aside {p : Prog Statement.Res ε α} {Q : α → List AppEvent → Prop}
    (hQ : ∀ a own', own ⊆ own' → Q a own') : Leads cx i k own p Q :=
  traced_of_quiet (only_true p) (returns_true p) (fun _ _ _ _ ↦ trivial)
    (fun a own' _ h ↦ hQ a own' h) fun _ _ _ ↦ trivial

theorem leads_readUser {id : Uuid} {e : AppError} {p : User → Bool}
    {Q : User → List AppEvent → Prop} (hQ : ∀ user own', own ⊆ own' → user.id = id →
      user.isLive = true → p user = true →
        Seen (fun s ↦ s.db.users.get? user.id = some user) own' → Q user own') :
    Leads cx i k own (do let found ← sql (.users (.findById id)); okOr e (found.filter p)) Q := by
  apply traced_bind.mpr
  apply leads_sql
  intro s found hfound
  apply leads_okOr
  intro user huser
  obtain ⟨hsome, hp⟩ := Option.filter_eq_some_iff.mp huser
  obtain ⟨hget, hid, hlive⟩ := find?_liveId_eq_some ((Option.some.inj hfound).trans hsome)
  exact hQ user _ (List.subset_cons_self _ _) hid hlive hp ⟨_, List.mem_cons_self, hid ▸ hget⟩

/-- The token is made from the row that was read. -/
theorem leads_issueJwt {row : User} {Q : TokenResponse → List AppEvent → Prop}
    (hread : Seen (fun s ↦ s.db.users.get? row.id = some row) own) (hlive : row.isLive = true)
    (hactive : row.isActive = true) (hQ : ∀ response own', own ⊆ own' →
      IssuedFor cx response.accessToken own' row → Q response own') :
    Leads cx i k own (issueJwt cx row) Q := by
  refine traced_bind.mpr (traced_clock fun s ↦ ⟨trivial, ?_⟩)
  refine hQ _ _ (List.subset_cons_self _ _) ?_
  exact { sub := rfl
          role := rfl
          version := rfl
          lifetime := rfl
          issued := ⟨_, List.mem_cons_self, rfl⟩
          read := hread.mono (List.subset_cons_self _ _)
          live := hlive
          active := hactive }

end Walk

section Requests

variable {cx : Context} {i : ℕ}

/-- A login whose account was found and is not locked. -/
theorem leads_checkPassword {email password : String} {user : User} {own : List AppEvent}
    (hread : Seen (fun s ↦ s.db.users.get? user.id = some user) own)
    (hemail : user.email = cx.normalizeEmail email) (hlive : user.isLive = true)
    (hunlocked : ∀ lockedUntil, user.lockedUntil = some lockedUntil →
      Seen (fun s ↦ lockedUntil ≤ s.now) own) :
    Leads cx i (.login email password) own
      (if cx.verifyPassword password user.passwordHash then SessionService.signIn cx user
        else SessionService.wrongPassword cx user)
      fun response own ↦ ∀ token, issuedToken (.login response) = some token →
        Earned cx token own (.login email password) := by
  split
  next hpassword =>
    refine traced_bind.mpr (leads_aside fun _ own₂ h₂ ↦ ?_)
    refine traced_bind.mpr (leads_ensure fun hactive ↦ ?_)
    refine traced_bind.mpr (leads_ensure fun hverified ↦ ?_)
    split
    · refine traced_bind.mpr (leads_aside fun _ _ _ ↦ ?_)
      rintro token ⟨⟩
    next hfactor =>
      refine traced_bind.mpr (leads_issueJwt (hread.mono h₂) hlive hactive ?_)
      rintro response own₃ h₃ hissued token ⟨⟩
      refine .password email password user hissued hemail hpassword ?_ ?_ ?_
      · exact fun lockedUntil hlocked ↦ ((hunlocked lockedUntil hlocked).mono h₂).mono h₃
      · exact fun hrequired ↦ by simpa [hrequired] using hverified
      · exact Bool.eq_false_iff.mpr hfactor
  · exact traced_bind.mpr (leads_aside fun _ _ _ ↦ trivial)

theorem leads_login (email password : String) :
    Leads cx i (.login email password) [] (SessionService.login cx email password)
      fun response own ↦ ∀ token, issuedToken (.login response) = some token →
        Earned cx token own (.login email password) := by
  apply traced_bind.mpr
  apply leads_sql
  intro s₁ found hfound
  refine traced_bind.mpr (leads_okOr fun user huser ↦ traced_bind.mpr ?_)
  subst huser
  obtain ⟨hmem, hmatches⟩ := Table.find?_eq_some (Option.some.inj hfound)
  simp only [Bool.and_eq_true, decide_eq_true_eq] at hmatches
  obtain ⟨hemail, hlive⟩ := hmatches
  have hget : s₁.db.users.get? user.id = some user := Table.get?_of_mem hmem
  unfold SessionService.isLocked
  split
  next hnever =>
    refine traced_bind.mpr (leads_ensure fun _ ↦ leads_checkPassword ?_ hemail hlive ?_)
    · exact ⟨_, List.mem_cons_self, hget⟩
    · intro lockedUntil hlocked
      simp [hnever] at hlocked
  next lockedUntil hlocked =>
    refine traced_bind.mpr (traced_clock fun s₂ ↦ ⟨trivial, traced_bind.mpr ?_⟩)
    refine leads_ensure fun hpast ↦ leads_checkPassword ?_ hemail hlive ?_
    · exact ⟨_, List.mem_cons_of_mem _ List.mem_cons_self, hget⟩
    · intro lockedUntil' huntil
      rw [hlocked, Option.some.injEq] at huntil
      subst huntil
      exact ⟨_, List.mem_cons_self, Int.not_lt.mp (of_decide_eq_false hpast)⟩

/-- The authenticator's code was right, or a recovery code was spent. -/
theorem leads_checkCode {user : User} {secret code : String} {own : List AppEvent}
    {Q : Bool → List AppEvent → Prop} (hQ : ∀ valid own', own ⊆ own' → (valid = true →
      Seen (fun s ↦ cx.checkTotp secret user.email code s.now = true) own' ∨
        ∃ e ∈ own', SpendsRecoveryCode user.id (cx.sha256 code) e) → Q valid own') {k : Request} :
    Leads cx i k own (TotpService.checkCode cx user secret code) Q := by
  refine (traced_stmt ..).mpr ⟨fun s₁ ↦ ⟨trivial, ?_⟩, by rintro _ ⟨⟩⟩
  cases haccepted : cx.checkTotp secret user.email code s₁.now with
  | true =>
      simp only [exec_verifyCode, haccepted]
      exact hQ true _ (List.subset_cons_self _ _) fun _ ↦ .inl ⟨_, List.mem_cons_self, haccepted⟩
  | false =>
      simp only [exec_verifyCode, haccepted]
      apply leads_sql
      intro s₂ claimed hclaimed
      refine hQ claimed _ (fun x hx ↦ by simp [hx]) fun htrue ↦ .inr ?_
      have hany : s₂.db.recoveryCodes.any (RecoveryCode.matches user.id (cx.sha256 code)) = true :=
        (Option.some.inj hclaimed).trans htrue
      exact ⟨_, List.mem_cons_self, rfl, List.any_eq_true.mp hany⟩

theorem leads_verifyLogin (pendingToken code : String) :
    Leads cx i (.twoFactorVerify pendingToken code) []
      (TotpService.verifyLogin cx pendingToken code)
      fun response own ↦
        Earned cx response.accessToken own (.twoFactorVerify pendingToken code) := by
  apply traced_bind.mpr
  apply traced_bind.mpr
  apply leads_sql
  intro s₁ found hfound
  refine leads_okOr fun claim hclaim ↦ ?_
  subst hclaim
  have hfind := Option.some.inj hfound
  rw [Table.find?_key] at hfind
  obtain ⟨hget, hredeemable⟩ := Option.filter_eq_some_iff.mp hfind
  rw [← Prog.bind_assoc]
  apply traced_bind.mpr
  apply leads_readUser
  intro user own₂ h₂ hid hlive hready hread
  obtain ⟨hactive, henabled⟩ := (Bool.and_eq_true _ _).mp hready
  have hpending : HoldsLink cx (.twoFactorVerify pendingToken code) user.id own₂
      .twoFactorPending :=
    ⟨pendingToken, claim, rfl, hid.symm, _, h₂ List.mem_cons_self, hget, hredeemable⟩
  refine traced_bind.mpr (leads_okOr fun secret hsecret ↦ traced_bind.mpr ?_)
  apply leads_checkCode
  intro valid own₃ h₃ hcode
  refine traced_bind.mpr (leads_ensure fun hvalid ↦ traced_bind.mpr (traced_bind.mpr ?_))
  apply leads_sql
  intro s₄ claimed hclaimed
  refine leads_okOr fun redeemed hredeemed ↦ ?_
  subst hredeemed
  obtain ⟨t, hget₄, hredeemable₄, -⟩ := AuthTokenSql.claim_eq_some hclaimed
  apply leads_issueJwt ((hread.mono h₃).mono (List.subset_cons_self _ _)) hlive hactive
  intro response own₅ h₅ hissued
  have hstill : own₃ ⊆ own₅ := fun x hx ↦ h₅ (List.mem_cons_of_mem _ hx)
  refine .secondFactor pendingToken code secret user hissued henabled hsecret
    ((hpending.mono h₃).mono hstill) ⟨_, h₅ List.mem_cons_self, rfl, t, hget₄, hredeemable₄⟩ ?_
  rcases hcode hvalid with hcorrect | ⟨e, he, hspends⟩
  · exact .inl (hcorrect.mono hstill)
  · exact .inr ⟨e, hstill he, hspends⟩

theorem leads_exchange (code : String) :
    Leads cx i (.oauthExchange code) [] (OAuthService.exchange cx code)
      fun response own ↦ Earned cx response.accessToken own (.oauthExchange code) := by
  apply traced_bind.mpr
  apply leads_sql
  intro s₁ claimed hclaimed
  refine traced_bind.mpr (leads_okOr fun userId huser ↦ ?_)
  subst huser
  obtain ⟨g, hget, hgrant, hunused, hexpires, -⟩ := LoginGrantSql.claim_eq_some hclaimed
  rw [← Prog.bind_assoc]
  apply traced_bind.mpr
  apply leads_readUser
  intro user own₂ h₂ hid hlive hactive hread
  apply leads_issueJwt hread hlive hactive
  intro response own₃ h₃ hissued
  refine .provider code user hissued ⟨_, h₃ (h₂ List.mem_cons_self), rfl, g, hget, ?_⟩
  exact ⟨hgrant.trans hid.symm, hunused, hexpires⟩

theorem leads_finishLogin (challengeId credential : String) :
    Leads cx i (.passkeyLoginFinish challengeId credential) []
      (PasskeysService.finishLogin cx challengeId credential)
      fun response own ↦
        Earned cx response.accessToken own (.passkeyLoginFinish challengeId credential) := by
  apply traced_bind.mpr
  apply traced_bind.mpr
  apply leads_sql
  intro s₁ claimed hclaimed
  refine traced_bind.mpr (leads_okOr fun state hstate ↦ ?_)
  subst hstate
  refine traced_bind.mpr (leads_ensure fun _ ↦ (traced_ret _).mpr ?_)
  obtain ⟨challenge, hget, hjson, hkind, -, hexpires, -⟩ := ChallengeSql.claim_eq_some hclaimed
  refine traced_bind.mpr (leads_okOr fun userId hidentify ↦ ?_)
  rw [← Prog.bind_assoc]
  apply traced_bind.mpr
  apply leads_readUser
  intro user own₂ h₂ hid hlive hactive hread
  apply traced_bind.mpr
  apply leads_sql
  intro s₃ rows hrows
  refine traced_bind.mpr (leads_okOr fun result hresult ↦ ?_)
  refine traced_bind.mpr (leads_aside fun _ own₄ h₄ ↦ ?_)
  refine traced_bind.mpr (leads_ensure fun hverified ↦ ?_)
  have hstill : own₂ ⊆ own₄ := fun x hx ↦ h₄ (List.mem_cons_of_mem _ hx)
  apply leads_issueJwt (hread.mono hstill) hlive hactive
  intro response own₅ h₅ hissued
  refine .passkey challengeId credential state user hissued (hid ▸ hidentify) ?_ ?_ ?_
  · exact ⟨_, h₅ (hstill (h₂ List.mem_cons_self)), rfl, challenge, hget, hkind, hjson, hexpires⟩
  · refine ⟨_, h₅ (h₄ List.mem_cons_self), rows, fun row hrow ↦ ?_, ?_⟩
    · rw [← Option.some.inj hrows] at hrow
      obtain ⟨hmem, howner⟩ := Table.mem_selectWhere.mp ((Table.mem_orderBy ..).mp hrow)
      exact ⟨hmem, of_decide_eq_true howner⟩
    · simp [hresult]
  · exact fun hrequired ↦ by simpa [hrequired] using hverified

theorem leads_collectToken {id secret : String} {own : List AppEvent}
    (hsecret : Seen (fun s ↦ ∃ session, s.db.qrSessions.get? id = some session ∧
      session.secretHash = cx.sha256 secret) own) :
    Leads cx i (.qrPoll id (some secret)) own (QrLoginService.collectToken cx id)
      fun response own ↦ ∀ token, issuedToken (.qrPolled response) = some token →
        Earned cx token own (.qrPoll id (some secret)) := by
  apply traced_bind.mpr
  apply leads_sql
  intro s₁ consumed hconsumed
  cases consumed with
  | none => rintro token ⟨⟩
  | some userId =>
      obtain ⟨session, hget, hvalid, huser⟩ := QrSql.consume_eq_some hconsumed
      dsimp only
      rw [← Prog.bind_assoc]
      apply traced_bind.mpr
      apply leads_readUser
      intro user own₂ h₂ hid hlive hactive hread
      refine traced_bind.mpr (leads_ensure fun hverified ↦ traced_bind.mpr ?_)
      apply leads_issueJwt hread hlive hactive
      rintro response own₃ h₃ hissued token ⟨⟩
      refine .approval id secret user hissued ?_ ?_ ?_
      · exact hsecret.mono fun x hx ↦ h₃ (h₂ (List.mem_cons_of_mem _ hx))
      · exact ⟨_, h₃ (h₂ List.mem_cons_self), rfl, session, hget, hvalid, hid ▸ huser⟩
      · exact fun hrequired ↦ by simpa [hrequired] using hverified

theorem leads_poll (id : String) (secret : Option String) :
    Leads cx i (.qrPoll id secret) [] (QrLoginService.poll cx id secret)
      fun response own ↦ ∀ token, issuedToken (.qrPolled response) = some token →
        Earned cx token own (.qrPoll id secret) := by
  apply traced_bind.mpr
  apply traced_bind.mpr
  apply leads_sql
  intro s₁ found hfound
  refine leads_okOr fun session hsession ↦ ?_
  subst hsession
  refine traced_bind.mpr (leads_ensure fun hsecret ↦ ?_)
  obtain ⟨raw, rfl, hhash⟩ := Option.map_eq_some_iff.mp hsecret
  split
  · rintro token ⟨⟩
  · rintro token ⟨⟩
  · refine traced_bind.mpr (traced_clock fun s₂ ↦ ⟨trivial, ?_⟩)
    split
    · rintro token ⟨⟩
    split
    · apply leads_collectToken
      exact ⟨_, List.mem_cons_of_mem _ List.mem_cons_self, session, Option.some.inj hfound,
        hhash.symm⟩
    · rintro token ⟨⟩

theorem traces_answersEarned (k : Request) :
    Traces (machine cx) (AnswersEarned cx) k (handle cx) := by
  have token {k : Request} {p : Req TokenResponse} (hp : ∀ i, Leads cx i k [] p fun response own ↦
      Earned cx response.accessToken own k) : ∀ i, Leads cx i k [] (do
        let response ← p
        pure (Response.token response)) fun response own ↦ ∀ token,
          issuedToken response = some token → Earned cx token own k := by
    refine fun i ↦ traced_bind.mpr ((hp i).mono ?_ fun _ _ _ ↦ trivial)
    rintro response own hearned token ⟨⟩
    exact hearned
  have tokenless : (handle cx k).Returns (fun response ↦ issuedToken response = none) →
      ∀ i, Leads cx i k [] (handle cx k) fun response own ↦ ∀ token,
        issuedToken response = some token → Earned cx token own k := by
    intro hR i
    refine traced_of_quiet (only_true _) hR (fun _ _ _ _ ↦ trivial) (fun response own hnone _ ↦ ?_)
      fun _ _ _ ↦ trivial
    intro token htoken
    simp [hnone] at htoken
  have hleads : ∀ i, Leads cx i k [] (handle cx k) fun response own ↦ ∀ token,
      issuedToken response = some token → Earned cx token own k := by
    cases k with
    | login email password =>
        exact fun i ↦ traced_bind.mpr ((leads_login email password).mono (fun _ _ h ↦ h)
          fun _ _ _ ↦ trivial)
    | twoFactorVerify pendingToken code => exact token fun _ ↦ leads_verifyLogin pendingToken code
    | oauthExchange code => exact token fun _ ↦ leads_exchange code
    | passkeyLoginFinish challengeId credential =>
        exact token fun _ ↦ leads_finishLogin challengeId credential
    | qrPoll id secret =>
        exact fun i ↦ traced_bind.mpr ((leads_poll id secret).mono (fun _ _ h ↦ h)
          fun _ _ _ ↦ trivial)
    | _ =>
        apply tokenless
        simp only [handle]
        repeat' refine returns_bind fun _ ↦ ?_
        rfl
  exact fun i ↦ (hleads i).mono (fun response own h _ ↦ h) fun _ _ _ _ ↦ trivial

end Requests

/-- In every run each answer meets what its token was to be earned with. -/
theorem Reached.answersEarned {cx : Context} {s : Server} {c : AppConfig} (hc : Reached cx s c)
    {later earlier : List AppEvent} {e : AppEvent}
    (hhist : c.world.history = later ++ e :: earlier) :
    AnswersEarned cx e (ownEvents e.tid earlier) :=
  Along.of_append (P := AlongOwn (AnswersEarned cx))
    (hhist ▸ hc.traces fun k _ ↦ traces_answersEarned k)

/-- Whatever requests are in flight, a token is answered only to who has earned it. -/
theorem tokens_earned {cx : Context} {s : Server} {c : AppConfig} (hc : Reached cx s c)
    {later earlier : List AppEvent} {i : ℕ} {k : Request} {response : Response} {b : Server}
    {token : Claims} (hhist : c.world.history = later ++ .answered i k (.ok response) b :: earlier)
    (htoken : issuedToken response = some token) : Earned cx token (ownEvents i earlier) k :=
  hc.answersEarned hhist token htoken

/-! ## Where sessions come from -/

/-- What shows that a request comes from the account's owner: the password, the account at a
provider, or a passkey. -/
inductive Proves (cx : Context) (u : Uuid) (k : Request) (own : List AppEvent) : Prop
  | password (hnamed : NamedBy cx k u own) (hknows : KnowsPassword cx k u own)
  | provider (provider : Provider) (query : CallbackQuery) (profile : ProviderProfile)
      (hk : k = .oauthCallback provider query (some profile))
      (hheld : ∃ e ∈ own, LeavesHeld cx provider profile.providerUserId u e)
  | passkey (challengeId credential state : String)
      (hk : k = .passkeyLoginFinish challengeId credential)
      (hidentify : cx.identify credential = some u)
      (hchallenge : ∃ e ∈ own, SpendsChallenge challengeId state e)
      (hverifies : Seen (VerifiesAgainst cx u credential state) own)

/-- Some request has shown before that it comes from the account's owner. -/
def Rooted (cx : Context) (u : Uuid) (h : List AppEvent) : Prop :=
  ∃ i k, (∃ e ∈ h, e.tid = i ∧ e.request = k) ∧ Proves cx u k (ownEvents i h)

def Presented.claims? : Presented → Option Claims
  | .bearer claims => some claims
  | .apiKey _ => none

def answeredToken : AppEvent → Option Claims
  | .answered _ _ (.ok response) _ => issuedToken response
  | _ => none

/-- No tokens are forged: those presented were answered before. -/
def PresentsIssued (e : AppEvent) (earlier : List AppEvent) : Prop :=
  ∀ claims ∈ e.request.caller?.bind Presented.claims?,
    ∃ x ∈ earlier, answeredToken x = some claims

instance (e : AppEvent) (earlier : List AppEvent) : Decidable (PresentsIssued e earlier) :=
  inferInstanceAs (Decidable (∀ claims ∈ e.request.caller?.bind Presented.claims?,
    ∃ x ∈ earlier, answeredToken x = some claims))

/-- No sign-in is under way. -/
structure NothingPending (s : Server) : Prop where
  tokens : ∀ t ∈ s.db.authTokens, t.purpose ≠ .twoFactorPending
  grants : ∀ g, g ∉ s.db.loginGrants
  sessions : ∀ session, session ∉ s.db.qrSessions

section Roots

variable {cx : Context} {u : Uuid} {k : Request} {own own' : List AppEvent}

theorem Proves.mono (h : Proves cx u k own) (hown : own ⊆ own') : Proves cx u k own' := by
  cases h with
  | password hnamed hknows => exact .password (hnamed.mono hown) (hknows.mono hown)
  | provider provider query profile hk hheld =>
      obtain ⟨e, he, hleaves⟩ := hheld
      exact .provider provider query profile hk ⟨e, hown he, hleaves⟩
  | passkey challengeId credential state hk hidentify hchallenge hverifies =>
      obtain ⟨e, he, hspends⟩ := hchallenge
      exact .passkey challengeId credential state hk hidentify ⟨e, hown he, hspends⟩
        (hverifies.mono hown)

theorem Proves.nonempty (h : Proves cx u k own) : ∃ e, e ∈ own := by
  cases h with
  | password hnamed =>
      obtain ⟨_, _, e, he, -⟩ := hnamed
      exact ⟨e, he⟩
  | provider _ _ _ _ hheld =>
      obtain ⟨e, he, -⟩ := hheld
      exact ⟨e, he⟩
  | passkey _ _ _ _ _ hchallenge =>
      obtain ⟨e, he, -⟩ := hchallenge
      exact ⟨e, he⟩

theorem Rooted.append {older : List AppEvent} (h : Rooted cx u older) (newer : List AppEvent)
    (y : AppEvent) : Rooted cx u (newer ++ y :: older) := by
  obtain ⟨i, k, ⟨e, he, hserves⟩, hproves⟩ := h
  have hstill : ∀ x ∈ older, x ∈ newer ++ y :: older := fun x hx ↦ by simp [hx]
  refine ⟨i, k, ⟨e, hstill e he, hserves⟩, hproves.mono fun x hx ↦ ?_⟩
  obtain ⟨hmem, htid⟩ := mem_ownEvents.mp hx
  exact mem_ownEvents.mpr ⟨hstill x hmem, htid⟩

/-- What a thread has shown before an event roots the account. -/
theorem Reached.rooted_of_proves {s : Server} {c : AppConfig} (hc : Reached cx s c)
    {later earlier : List AppEvent} {e : AppEvent}
    (hhist : c.world.history = later ++ e :: earlier)
    (hproves : Proves cx u e.request (ownEvents e.tid earlier)) : Rooted cx u earlier := by
  obtain ⟨x, hx⟩ := hproves.nonempty
  obtain ⟨hmem, htid⟩ := mem_ownEvents.mp hx
  refine ⟨e.tid, e.request, ⟨x, hmem, htid, ?_⟩, hproves⟩
  apply hc.request_eq _ _ htid
  · rw [hhist]
    exact List.mem_append_right _ (List.mem_cons_of_mem _ hmem)
  · rw [hhist]
    exact List.mem_append_right _ List.mem_cons_self

end Roots

section Runs

theorem split_further {h later newer older : List AppEvent} {a y : AppEvent}
    (hsplit : h = later ++ a :: (newer ++ y :: older)) :
    h = (later ++ a :: newer) ++ y :: older := by
  simp [hsplit]

variable {cx : Context} {s : Server} {c : AppConfig} (hc : Reached cx s c)
include hc

/-- What an event finds, and the start did not have, began at an earlier event. -/
theorem Reached.began_before (live : Server → Prop)
    (henv : ∀ ticks t, live ((machine cx).env ticks t) ↔ live t) (hs : ¬live s)
    {later earlier : List AppEvent} {a e : AppEvent}
    (hhist : c.world.history = later ++ a :: earlier) (he : e ∈ earlier) (hlive : live e.store) :
    ∃ newer y older, earlier = newer ++ y :: older ∧ y.Ran (Rises (machine cx) live) := by
  obtain ⟨l₁, l₂, rfl⟩ := List.append_of_mem he
  have hsplit : c.world.history = (later ++ a :: l₁) ++ e :: l₂ := by simp [hhist]
  obtain ⟨c', hc', hworld⟩ := hc.past hsplit
  obtain ⟨mid, y, older, hold, hrises, -⟩ :=
    hc'.rises_of_live live henv hs (by simpa [hworld] using hlive)
  rw [hworld] at hold
  exact ⟨l₁ ++ e :: mid, y, older, by simp [show l₂ = mid ++ y :: older from hold], hrises⟩

/-- A login that waits for its second factor was given the account's password. -/
theorem Reached.rooted_of_pending (hstart : NothingPending s) {later earlier : List AppEvent}
    {a : AppEvent} (hhist : c.world.history = later ++ a :: earlier) {k : Request} {u : Uuid}
    (hholds : HoldsLink cx k u (ownEvents a.tid earlier) .twoFactorPending) :
    Rooted cx u earlier := by
  obtain ⟨raw, t, -, huser, e, he, hget, hredeemable⟩ := hholds
  have hunused : t.isUnused u .twoFactorPending = true := by
    simp only [AuthToken.isRedeemable, Bool.and_eq_true, decide_eq_true_eq] at hredeemable
    simp [AuthToken.isUnused, huser, hredeemable.1]
  have hnew : ¬linkIs (cx.sha256 raw) (AuthToken.isUnused u .twoFactorPending) s := by
    rintro ⟨t₀, hget₀, hunused₀⟩
    simp only [AuthToken.isUnused, Bool.and_eq_true, decide_eq_true_eq] at hunused₀
    exact hstart.tokens t₀ (Table.mem_of_get? hget₀) hunused₀.1.2
  obtain ⟨newer, y, older, rfl, hrises⟩ := hc.began_before _ (fun _ _ ↦ Iff.rfl) hnew hhist
    (mem_ownEvents.mp he).1 ⟨t, hget, hunused⟩
  cases y with
  | answered => exact hrises.elim
  | ran j k' q b =>
      obtain ⟨userId, purpose, newEmail, expiresAt, rfl, hfor⟩ :=
        insert_of_unused_rises AuthToken.not_isUnused_markUsed hrises
      simp only [AuthToken.isUnused, Bool.and_eq_true, decide_eq_true_eq] at hfor
      obtain ⟨⟨rfl, rfl⟩, -⟩ := hfor
      have hsplit := split_further hhist
      obtain ⟨hnamed, hknows⟩ := hc.warranted hsplit
      have hroot := hc.rooted_of_proves hsplit (.password hnamed hknows)
      exact hroot.append newer _

/-- A login grant is for the account that holds the provider's. -/
theorem Reached.rooted_of_grant (hstart : NothingPending s) {later earlier : List AppEvent}
    {a e : AppEvent} (hhist : c.world.history = later ++ a :: earlier) (he : e ∈ earlier)
    {u : Uuid} {hash : String} (hspends : SpendsGrant u hash e) : Rooted cx u earlier := by
  let live : Server → Prop := fun t ↦
    ∃ g, t.db.loginGrants.get? hash = some g ∧ g.userId = u ∧ g.usedAt = none
  have hnew : ¬live s := by
    rintro ⟨g, hget, -⟩
    exact hstart.grants g (Table.mem_of_get? hget)
  have hlive : live e.store := by
    cases e with
    | answered => exact hspends.elim
    | ran i k q b =>
        obtain ⟨-, g, hget, huser, hunused, -⟩ := hspends
        exact ⟨g, hget, huser, hunused⟩
  obtain ⟨newer, y, older, rfl, hrises⟩ := hc.began_before live (fun _ _ ↦ Iff.rfl)
    hnew hhist he hlive
  cases y with
  | answered => exact hrises.elim
  | ran j k' q b =>
      obtain ⟨hbefore, g, hget, huser, hunused⟩ := hrises
      have hsame : ¬b.db.loginGrants.get? hash = some g := fun h ↦ hbefore ⟨g, h, huser, hunused⟩
      have hinsert : q = .sql (.loginGrants (.insert g)) := by
        cases q with
        | sql q =>
            cases q with
            | loginGrants q =>
                rcases LoginGrantSql.get?_run hget hunused with hold | rfl
                · exact absurd hold hsame
                · rfl
            | _ => exact absurd hget hsame
        | _ => exact absurd hget hsame
      subst hinsert
      have hsplit := split_further hhist
      obtain ⟨provider, query, profile, hk, hheld⟩ := hc.warranted hsplit
      have hroot := hc.rooted_of_proves hsplit (.provider provider query profile hk (huser ▸ hheld))
      exact hroot.append newer _

/-- A QR session is approved by a session of the account. -/
theorem Reached.session_of_approval (hstart : NothingPending s) {later earlier : List AppEvent}
    {a e : AppEvent} (hhist : c.world.history = later ++ a :: earlier) (he : e ∈ earlier)
    {u : Uuid} {id : String} (hconsumes : ConsumesFor u id e) :
    ∃ newer y older claims, earlier = newer ++ y :: older ∧
      y.request.caller? = some (.bearer claims) ∧ claims.sub = u := by
  have hnew : ¬sessionIs id (QrSession.isApprovedFor u) s := by
    rintro ⟨session, hget, -⟩
    exact hstart.sessions session (Table.mem_of_get? hget)
  have hlive : sessionIs id (QrSession.isApprovedFor u) e.store := by
    cases e with
    | answered => exact hconsumes.elim
    | ran i k q b =>
        obtain ⟨-, session, hget, hvalid, huser⟩ := hconsumes
        simp only [QrSession.consumable, Bool.and_eq_true, decide_eq_true_eq] at hvalid
        exact ⟨session, hget, by simp [QrSession.isApprovedFor, hvalid.1, huser]⟩
  obtain ⟨newer, y, older, rfl, hrises⟩ := hc.began_before _ (fun _ _ ↦ Iff.rfl) hnew hhist he hlive
  cases y with
  | answered => exact hrises.elim
  | ran j k' q b =>
      obtain ⟨rfl, -⟩ := approve_of_rises hrises
      have hsplit := split_further hhist
      obtain ⟨claims, hcaller, hsub, -⟩ := hc.warranted hsplit
      exact ⟨newer, _, older, claims, rfl, hcaller, hsub⟩

/-- Where no token is forged, a token is answered only after the account's owner has shown its
password, its account at a provider, or one of its passkeys. -/
theorem tokens_rooted (hstart : NothingPending s) (hissued : Along PresentsIssued c.world.history)
    {later earlier : List AppEvent} {i : ℕ} {k : Request} {response : Response} {b : Server}
    {token : Claims} (hhist : c.world.history = later ++ .answered i k (.ok response) b :: earlier)
    (htoken : issuedToken response = some token) : Rooted cx token.sub earlier := by
  -- an approval leads to an older session, so the induction is on what came before the answer
  induction hlength : earlier.length using Nat.strongRecOn
    generalizing later earlier i k response b token with
  | ind n ih =>
      have hearned := hc.answersEarned hhist token htoken
      cases hearned with
      | password email password row hrow hemail hpassword =>
          obtain ⟨e, he, hget⟩ := hrow.read
          apply hc.rooted_of_proves hhist
          rw [hrow.sub]
          apply Proves.password
          · exact ⟨email, rfl, e, he, row, hget, hrow.live, hemail⟩
          · exact ⟨password, rfl, e, he, row, hget, hpassword⟩
      | secondFactor pendingToken code secret row hrow _ _ hpending =>
          rw [hrow.sub]
          exact hc.rooted_of_pending hstart hhist hpending
      | provider code row hrow hgrant =>
          obtain ⟨e, he, hspends⟩ := hgrant
          rw [hrow.sub]
          exact hc.rooted_of_grant hstart hhist (mem_ownEvents.mp he).1 hspends
      | passkey challengeId credential state row hrow hidentify hchallenge hverifies =>
          apply hc.rooted_of_proves hhist
          rw [hrow.sub]
          exact .passkey challengeId credential state rfl hidentify hchallenge hverifies
      | approval id secret row hrow _ hconsumed =>
          obtain ⟨e, he, hconsumes⟩ := hconsumed
          obtain ⟨newer, y, older, claims, rfl, hcaller, hsub⟩ :=
            hc.session_of_approval hstart hhist (mem_ownEvents.mp he).1 hconsumes
          have hsplit := split_further hhist
          have hpresents : PresentsIssued y older :=
            Along.of_append (P := PresentsIssued) (hsplit ▸ hissued)
          obtain ⟨x, hx, htoken'⟩ := hpresents claims (by simp [hcaller, Presented.claims?])
          obtain ⟨mid, oldest, rfl⟩ := List.append_of_mem hx
          unfold answeredToken at htoken'
          split at htoken'
          next i' k' response' b' =>
            have hroot := ih oldest.length (by simp [← hlength]; omega)
              (split_further hsplit) htoken' rfl
            rw [hrow.sub, ← hsub]
            exact (hroot.append mid _).append newer y
          next => cases htoken'

end Runs

/-! ## A run to look at -/

namespace EarnedSample

open Sample

/-- Ada logs in and lets another device in with the session she got. -/
def schedule : List (Action Request ℕ) :=
  alone 0 (.login "ada@example.com" "correct-horse") 3 ++ alone 1 (.qrCreate none none) 7 ++
    alone 2 (.qrScan (bearer 1 .user) QrSample.session) 5 ++
      alone 3 (.qrApprove (bearer 1 .user) QrSample.session "1002") 5 ++
        alone 4 (.qrPoll QrSample.session (some (Context.sample.randomToken 1))) 5

/-- The last answer hands out a token. -/
def handsOut : List AppEvent → Bool
  | .answered _ (.qrPoll ..) (.ok response) _ :: _ => (issuedToken response).isSome
  | _ => false

theorem start_nothingPending : NothingPending QrSample.start where
  tokens t ht := by cases ht
  grants g hg := by cases hg
  sessions session h := by cases h

def lastIsRooted (c : AppConfig) : Bool :=
  decide (Along PresentsIssued c.world.history) && handsOut c.world.history

theorem reached : ∃ c, Reached .sample QrSample.start c ∧ lastIsRooted c = true :=
  Reachable.of_schedule schedule lastIsRooted (by decide) (by decide)

end EarnedSample

theorem tokens_earned_approval : ∃ c, Reached .sample QrSample.start c ∧
    ∃ i k response b token earlier,
      c.world.history = .answered i k (.ok response) b :: earlier ∧
        issuedToken response = some token ∧ Earned .sample token (ownEvents i earlier) k := by
  obtain ⟨c, hc, htest⟩ := EarnedSample.reached
  obtain ⟨-, hhands⟩ := (Bool.and_eq_true _ _).mp htest
  unfold EarnedSample.handsOut at hhands
  split at hhands
  next i id secret response b earlier hhist =>
    obtain ⟨token, htoken⟩ := Option.isSome_iff_exists.mp hhands
    exact ⟨c, hc, i, _, response, b, token, earlier, hhist, htoken,
      tokens_earned hc (hhist.trans (List.nil_append _).symm) htoken⟩
  next => cases hhands

theorem tokens_rooted_approval : ∃ c, Reached .sample QrSample.start c ∧
    ∃ i k response b token earlier,
      c.world.history = .answered i k (.ok response) b :: earlier ∧
        issuedToken response = some token ∧ Rooted .sample token.sub earlier := by
  obtain ⟨c, hc, htest⟩ := EarnedSample.reached
  obtain ⟨hissued, hhands⟩ := (Bool.and_eq_true _ _).mp htest
  unfold EarnedSample.handsOut at hhands
  split at hhands
  next i id secret response b earlier hhist =>
    obtain ⟨token, htoken⟩ := Option.isSome_iff_exists.mp hhands
    exact ⟨c, hc, i, _, response, b, token, earlier, hhist, htoken,
      tokens_rooted hc EarnedSample.start_nothingPending (of_decide_eq_true hissued)
        (hhist.trans (List.nil_append _).symm) htoken⟩
  next => cases hhands

end ApiStarter
