import ApiStarter.HalfFinished
import ApiStarter.Interleave.Solo

/-!
# What a deleted account leaves behind

Deletion only stamps the account's row.  Its provider identities and passkeys
stay, and with them the provider's account and the credential remain taken.
-/

namespace ApiStarter

open Interleave Interleave.Prog Relational

def isDeleted (users : Table User.id) (u : Uuid) : Bool :=
  (users.get? u).any fun row ↦ !row.isLive

def Server.withSignIn (s : Server) (identities : Table OAuthIdentity.key)
    (passkeys : Table PasskeyRow.id) : Server :=
  { s with db := { s.db with oauthIdentities := identities, passkeys := passkeys } }

/-- The state without the identities and passkeys of deleted accounts. -/
def scrub (s : Server) : Server :=
  s.withSignIn (s.db.oauthIdentities.deleteWhere fun i ↦ isDeleted s.db.users i.userId)
    (s.db.passkeys.deleteWhere fun p ↦ isDeleted s.db.users p.userId)

/-- What a request is answered in this state. -/
def outcome (cx : Context) (k : Request) (s : Server) : Except AppError Response :=
  ((handle cx k).alone (machine cx) s).1

def Request.signsUp : Request → Bool
  | .oauthCallback .. => true
  | .passkeyRegisterFinish .. => true
  | _ => false

/-- The callback gets to the provider's identity, with this state and profile. -/
structure Arrives (cx : Context) (provider : Provider) (query : CallbackQuery)
    (answer : Option ProviderProfile) (s : Server) (st : OAuthState) (profile : ProviderProfile) :
    Prop where
  claims : ∃ raw, query.state = some raw ∧
    ((OAuthStateSql.claim (cx.sha256 raw)).run s.now s.db.oauthStates).1 = some (some st)
  provider_eq : st.provider = provider
  error_eq : query.error = none
  code : ∃ code, query.code = some code
  answer_eq : answer = some profile

/-- The registration gets to storing this passkey for this account. -/
structure Registers (cx : Context) (caller : Presented) (challengeId credential : String)
    (s : Server) (u : Uuid) (passkey : Passkey) : Prop where
  session : ∃ claims : Claims, caller = .bearer claims ∧ claims.sub = u ∧
    s.now.timestamp - jwtLeewaySecs ≤ claims.exp ∧ accepts cx claims s = true
  challenge : ∃ state, ((ChallengeSql.claim challengeId .registration (some u)).run s.now
    s.db.challenges).1 = some (some state) ∧ cx.decodesState .registration state = true ∧
      cx.finishRegistration credential state = some passkey

/-- The request gets to an identity or a passkey of a deleted account. -/
def MeetsDeleted (cx : Context) (s : Server) : Request → Prop
  | .oauthCallback provider query answer => ∃ st profile i,
      Arrives cx provider query answer s st profile ∧
        s.db.oauthIdentities.get? (provider, profile.providerUserId) = some i ∧
          isDeleted s.db.users i.userId = true
  | .passkeyRegisterFinish caller challengeId credential _ => ∃ u passkey,
      Registers cx caller challengeId credential s u passkey ∧
        ∃ p ∈ s.db.passkeys, p.credentialId = passkey.credId ∧ isDeleted s.db.users p.userId = true
  | _ => False

/-- `UNIQUE (credential_id)` -/
def CredentialsUnique (s : Server) : Prop :=
  ∀ p₁ ∈ s.db.passkeys, ∀ p₂ ∈ s.db.passkeys, p₁.credentialId = p₂.credentialId → p₁ = p₂

/-! ## Statements that do not see the difference -/

/-- Statements on other tables. -/
def Statement.aside : Statement → Bool
  | .sql (.oauthIdentities _) => false
  | .sql (.passkeys _) => false
  | .sql (.signInMethodCount _) => false
  | _ => true

section Statements

variable {cx : Context} {q : Statement} {s s' : Server} {identities : Table OAuthIdentity.key}
  {passkeys : Table PasskeyRow.id} {provider : Provider} {x : String}

theorem aside_exec (hq : q.aside = true) : (machine cx).exec q (s.withSignIn identities passkeys) =
    (((machine cx).exec q s).1, ((machine cx).exec q s).2.withSignIn identities passkeys) := by
  cases q with
  | sql q =>
      cases q with
      | oauthIdentities q => cases hq
      | passkeys q => cases hq
      | signInMethodCount id => cases hq
      | _ => rfl
  | _ => rfl

theorem aside_keeps (hq : q.aside = true) :
    ((machine cx).exec q s).2.db.oauthIdentities = s.db.oauthIdentities ∧
      ((machine cx).exec q s).2.db.passkeys = s.db.passkeys := by
  cases q with
  | sql q =>
      cases q with
      | oauthIdentities q => cases hq
      | passkeys q => cases hq
      | _ => exact ⟨rfl, rfl⟩
  | _ => exact ⟨rfl, rfl⟩

/-- The states differ in identities and passkeys only, and not in this identity. -/
def AlikeAt (provider : Provider) (x : String) (s s' : Server) : Prop :=
  ∃ identities passkeys, s' = s.withSignIn identities passkeys ∧
    identities.get? (provider, x) = s.db.oauthIdentities.get? (provider, x)

/-- Statements that look at no other identity, and at no passkey. -/
def BlindBut (provider : Provider) (x : String) : Statement → Prop
  | .sql (.oauthIdentities (.find provider' x')) => provider' = provider ∧ x' = x
  | .sql (.oauthIdentities (.insert _ provider' x' _)) => provider' = provider ∧ x' = x
  | q => q.aside = true

theorem alikeAt_exec (hq : BlindBut provider x q) (h : AlikeAt provider x s s') :
    ((machine cx).exec q s).1 = ((machine cx).exec q s').1 ∧
      AlikeAt provider x ((machine cx).exec q s).2 ((machine cx).exec q s').2 := by
  obtain ⟨identities, passkeys, rfl, hsame⟩ := h
  unfold BlindBut at hq
  split at hq
  · obtain ⟨rfl, rfl⟩ := hq
    exact ⟨congrArg some hsame.symm, identities, passkeys, rfl, hsame⟩
  · obtain ⟨rfl, rfl⟩ := hq
    obtain ⟨hanswer, hget⟩ := OAuthIdentitySql.run_insert s.now s.db.oauthIdentities _ _ _ _
    obtain ⟨hanswer', hget'⟩ := OAuthIdentitySql.run_insert s.now identities _ _ _ _
    refine ⟨?_, _, passkeys, rfl, ?_⟩
    · exact hanswer.trans (hsame ▸ hanswer'.symm)
    · exact hget'.trans (hsame ▸ hget.symm)
  · rw [aside_exec hq]
    exact ⟨rfl, identities, passkeys, rfl, by rw [(aside_keeps hq).1, hsame]⟩

end Statements

/-! ## Callbacks -/

/-- The page a callback ends on. -/
def page : Except String CallbackOutcome → CallbackOutcome
  | .ok outcome => outcome
  | .error reason => .failed reason

section Callbacks

variable {cx : Context} {s s' : Server} {provider : Provider} {x : String}
  {query : CallbackQuery} {answer : Option ProviderProfile} {profile : ProviderProfile}
  {linkingUser : Option Uuid} {redirect : String}

/-- A callback up to the provider's answer. -/
def arrival (cx : Context) (provider : Provider) (query : CallbackQuery)
    (answer : Option ProviderProfile) : OAuthService.Callback (OAuthState × ProviderProfile) := do
  let stateRaw ← okOr "invalid_state" query.state
  let claimed ← OAuthService.orServerError (sql (.oauthStates (.claim (cx.sha256 stateRaw))))
  let state ← okOr "invalid_state" claimed
  ensure (state.provider = provider) "invalid_state"
  ensure (query.error.isNone = true) "access_denied"
  let _ ← okOr "access_denied" query.code
  let profile ← okOr "provider_error" answer
  pure (state, profile)

theorem callback_eq : OAuthService.callback cx provider query (.answering answer) =
    (arrival cx provider query answer >>= fun arrived ↦ OAuthService.resolve cx provider arrived.2
      arrived.1.userId arrived.1.redirectPath) := by
  simp only [OAuthService.callback, ProviderCalls.answering, arrival, Prog.bind_assoc, pure_eq,
    ret_bind, okOr_some]

theorem outcome_oauthCallback : outcome cx (.oauthCallback provider query answer) s =
    .ok (.callback (page
      ((OAuthService.callback cx provider query (.answering answer)).alone (machine cx) s).1)) := by
  simp only [outcome, handle, OAuthService.handleCallback, attempt, Prog.alone_bind,
    Prog.alone_bindBoth]
  cases ((OAuthService.callback cx provider query (.answering answer)).alone
    (machine cx) s).1 <;> rfl

theorem settles_sql {q : Sql} {Q : q.Res → Server → Prop} {E : AppError → Server → Prop}
    (hQ : ∀ r, (q.run s.now s.db).1 = some r → Q r ((machine cx).exec (.sql q) s).2)
    (hE : (q.run s.now s.db).1 = none → E .database ((machine cx).exec (.sql q) s).2) :
    @Settles _ _ _ _ (no_index q.Res) _ (machine cx) (sql q) Q E s :=
  settles_bind.mpr ((settles_ask _).mpr ((settles_okOr ..).mpr ⟨hQ, hE⟩))

theorem alone_sql {q : Sql} {r : q.Res} (h : (q.run s.now s.db).1 = some r) :
    @Prog.alone _ _ _ _ (no_index q.Res) _ (machine cx) (sql q) s =
      (.ok r, ((machine cx).exec (.sql q) s).2) := by
  simp only [sql, ask_bind, Prog.alone, exec_sql, h, okOr_some]

theorem settles_arrival : Settles (machine cx) (arrival cx provider query answer)
    (fun arrived t ↦ Arrives cx provider query answer s arrived.1 arrived.2 ∧
      t.db.users = s.db.users ∧ t.db.oauthIdentities = s.db.oauthIdentities)
        (fun _ _ ↦ True) s := by
  refine settles_bind.mpr ((settles_okOr ..).mpr ⟨fun raw hraw ↦ ?_, fun _ ↦ trivial⟩)
  refine settles_bind.mpr
    (settles_mapErr.mpr (settles_sql (fun claimed hclaimed ↦ ?_) fun _ ↦ trivial))
  refine settles_bind.mpr ((settles_okOr ..).mpr ⟨fun st hst ↦ ?_, fun _ ↦ trivial⟩)
  refine settles_bind.mpr ((settles_ensure ..).mpr ⟨fun hprovider ↦ ?_, fun _ ↦ trivial⟩)
  refine settles_bind.mpr ((settles_ensure ..).mpr ⟨fun herror ↦ ?_, fun _ ↦ trivial⟩)
  refine settles_bind.mpr ((settles_okOr ..).mpr ⟨fun code hcode ↦ ?_, fun _ ↦ trivial⟩)
  refine settles_bind.mpr ((settles_okOr ..).mpr ⟨fun profile hprofile ↦ ?_, fun _ ↦ trivial⟩)
  subst hst
  exact ⟨⟨⟨raw, hraw, hclaimed⟩, hprovider, Option.isNone_iff_eq_none.mp herror, ⟨code, hcode⟩,
    hprofile⟩, rfl, rfl⟩

/-- A callback that gets to the identity decides there. -/
theorem alone_callback_of_arrives {st : OAuthState}
    (h : Arrives cx provider query answer s st profile) :
    ∃ t : Server, t.db.users = s.db.users ∧ t.db.oauthIdentities = s.db.oauthIdentities ∧
      (OAuthService.callback cx provider query (.answering answer)).alone (machine cx) s =
        (OAuthService.resolve cx provider profile st.userId st.redirectPath).alone
          (machine cx) t := by
  obtain ⟨⟨raw, hraw, hclaim⟩, hprovider, herror, ⟨code, hcode⟩, hanswer⟩ := h
  refine ⟨((machine cx).exec (.sql (.oauthStates (.claim (cx.sha256 raw)))) s).2, rfl, rfl, ?_⟩
  have hclaimed : ((OAuthService.orServerError (sql (.oauthStates (.claim (cx.sha256 raw))))).alone
      (machine cx) s) =
        (.ok (some st),
          ((machine cx).exec (.sql (.oauthStates (.claim (cx.sha256 raw)))) s).2) := by
    have hrun : (sql (.oauthStates (.claim (cx.sha256 raw)))).alone (machine cx) s =
        (.ok (some st), ((machine cx).exec (.sql (.oauthStates (.claim (cx.sha256 raw)))) s).2) :=
      alone_sql hclaim
    rw [OAuthService.orServerError, mapErr, Prog.alone_bindBoth, hrun]
    rfl
  simp only [OAuthService.callback, ProviderCalls.answering, hraw, herror, hcode, hanswer,
    okOr_some, ret_bind]
  rw [Prog.alone_bind, hclaimed]
  simp [ensure, hprovider]

theorem only_grantFor_aside {u : Uuid} : (OAuthService.grantFor cx u redirect).Only
    fun q ↦ q.aside = true := by
  refine .bind (.mapErr (by simp [Statement.aside])) fun _ ↦ .bind (by simp) fun _ ↦ ?_
  refine .bind (by simp) fun _ ↦ .bind (by simp) fun _ ↦ ?_
  simp only [only_generateToken_bind, only_clock_bind]
  refine ⟨rfl, fun _ ↦ ⟨rfl, fun _ ↦ .bind (.mapErr ?_) fun _ ↦ trivial⟩⟩
  simp [OAuthService.insertGrant, Statement.aside]

theorem blindBut_of_aside {q : Statement} (hq : q.aside = true) : BlindBut provider x q := by
  unfold BlindBut
  split
  · cases hq
  · cases hq
  · exact hq

theorem only_resolve_blindBut :
    (OAuthService.resolve cx provider profile linkingUser redirect).Only
      (BlindBut provider profile.providerUserId) := by
  have grants {u : Uuid} : (OAuthService.grantFor cx u redirect).Only
      (BlindBut provider profile.providerUserId) :=
    only_grantFor_aside.mono fun _ hq ↦ blindBut_of_aside hq
  have links {u : Uuid} : (OAuthService.link u provider profile).Only
      (BlindBut provider profile.providerUserId) :=
    .bind (.mapErr (by simp [BlindBut])) fun _ ↦ by simp
  refine .bind (.mapErr (by simp [BlindBut])) fun found ↦ ?_
  cases found with
  | some identity =>
      cases linkingUser with
      | some userId => exact only_ite.mpr ⟨fun _ ↦ trivial, fun _ ↦ trivial⟩
      | none => exact grants
  | none =>
      cases linkingUser with
      | some userId =>
          refine .bind (.mapErr (by simp [BlindBut, Statement.aside])) fun _ ↦
            .bind (by simp) fun _ ↦ ?_
          exact links.bind fun _ ↦ trivial
      | none =>
          refine only_okOr_bind.mpr fun email _ ↦ .bind ?_ fun _ ↦ links.bind fun _ ↦ grants
          refine .bind (.mapErr
            (by simp [UsersService.findByEmail, BlindBut, Statement.aside])) fun found ↦ ?_
          cases found with
          | some existing => simp
          | none =>
              refine .mapErr ?_
              simp [UsersService.createPasswordless, UsersService.insertUser, BlindBut,
                Statement.aside]

theorem only_arrival_aside : (arrival cx provider query answer).Only fun q ↦ q.aside = true := by
  refine .bind (by simp) fun _ ↦ .bind (.mapErr (by simp [Statement.aside])) fun _ ↦ ?_
  refine .bind (by simp) fun _ ↦ .bind (by simp) fun _ ↦ .bind (by simp) fun _ ↦ ?_
  exact .bind (by simp) fun _ ↦ .bind (by simp) fun _ ↦ trivial

theorem agrees_aside {ε α : Type} {p : Prog Statement.Res ε α}
    {identities : Table OAuthIdentity.key}
    {passkeys : Table PasskeyRow.id} (hp : p.Only fun q ↦ q.aside = true) :
    Agrees (machine cx) p (fun _ t t' ↦ t' = t.withSignIn identities passkeys) s
      (s.withSignIn identities passkeys) := by
  refine agrees_of_only (R := fun t t' : Server ↦ t' = t.withSignIn identities passkeys) hp
    (fun q hq t t' h ↦ ?_)
    rfl
  subst h
  rw [aside_exec hq]
  exact ⟨rfl, rfl⟩

/-- A callback that gets to no identity of a deleted account does not see the difference. -/
theorem outcome_callback_scrub (h : ¬MeetsDeleted cx s (.oauthCallback provider query answer)) :
    outcome cx (.oauthCallback provider query answer) s =
      outcome cx (.oauthCallback provider query answer) (scrub s) := by
  have hagrees : Agrees (machine cx) (OAuthService.callback cx provider query (.answering answer))
      (fun _ _ _ ↦ True) s (scrub s) := by
    rw [callback_eq]
    refine agrees_bind (((agrees_aside only_arrival_aside).and_settles settles_arrival).mono ?_)
    rintro ⟨st, profile⟩ t t' ⟨rfl, harrives, -, hidentities⟩
    refine (agrees_of_only only_resolve_blindBut (fun q hq t t' ↦ alikeAt_exec hq)
      ⟨_, _, rfl, ?_⟩).mono fun _ _ _ _ ↦ trivial
    rw [Table.get?_deleteWhere, hidentities]
    cases hget : s.db.oauthIdentities.get? (provider, profile.providerUserId) with
    | none => rfl
    | some i =>
        have hlive : isDeleted s.db.users i.userId = false := by
          rw [← Bool.not_eq_true]
          exact fun hdeleted ↦ h ⟨st, profile, i, harrives, hget, hdeleted⟩
        simp [hlive]
  rw [outcome_oauthCallback, outcome_oauthCallback, hagrees.1]

/-- An identity of a deleted account links nobody and signs nobody in. -/
theorem settles_resolve_deleted (cx : Context) (linkingUser : Option Uuid)
    (redirect : String) {i : OAuthIdentity}
    (hget : s.db.oauthIdentities.get? (provider, profile.providerUserId) = some i)
    (hdeleted : isDeleted s.db.users i.userId = true) : Settles (machine cx)
      (OAuthService.resolve cx provider profile linkingUser redirect)
      (fun o _ ↦ linkingUser = some i.userId ∧ o = .linked provider redirect)
      (fun reason _ ↦ (linkingUser = none ∧ reason = "invalid_state") ∨
        (linkingUser.isSome ∧ reason = "already_linked")) s := by
  refine settles_bind.mpr (settles_mapErr.mpr (settles_sql (fun found hfound ↦ ?_) fun hnone ↦ ?_))
  · obtain rfl : some i = found := hget.symm.trans (Option.some.inj hfound)
    cases linkingUser with
    | some userId =>
        by_cases hsame : userId = i.userId
        · simp only [if_pos hsame]
          exact ⟨congrArg _ hsame, rfl⟩
        · simp only [if_neg hsame]
          exact .inr ⟨rfl, rfl⟩
    | none =>
        refine settles_bind.mpr
          (settles_mapErr.mpr (settles_sql (fun found hfound ↦ ?_) fun hnone ↦ ?_))
        · refine settles_bind.mpr
            ((settles_okOr ..).mpr ⟨fun user huser ↦ ?_, fun _ ↦ .inl ⟨rfl, rfl⟩⟩)
          obtain ⟨hrow, -, hlive⟩ := find?_liveId_eq_some ((Option.some.inj hfound).trans huser)
          have hdead : (some user).any (fun row : User ↦ !row.isLive) = true := hrow ▸ hdeleted
          simp [hlive] at hdead
        · cases hnone
  · cases hnone

/-- An account that is there signs in, or is told something else. -/
theorem settles_grantFor_live {user : User}
    (hlive : s.db.users.find? (liveId user.id) = some user) :
    Settles (machine cx) (OAuthService.grantFor cx user.id redirect)
      (fun o _ ↦ ∃ code, o = .loggedIn code redirect)
      (fun reason _ ↦ reason ≠ "invalid_state") s := by
  refine settles_bind.mpr
    (settles_mapErr.mpr (settles_sql (fun found hfound ↦ ?_) fun _ ↦ by decide))
  obtain rfl : some user = found := hlive.symm.trans (Option.some.inj hfound)
  refine settles_bind.mpr ((settles_okOr ..).mpr ⟨fun _ _ ↦ ?_, nofun⟩)
  refine settles_bind.mpr ((settles_ensure ..).mpr ⟨fun _ ↦ ?_, fun _ ↦ by decide⟩)
  refine settles_bind.mpr ((settles_ensure ..).mpr ⟨fun _ ↦ ?_, fun _ ↦ by decide⟩)
  refine settles_bind.mpr (settles_bind.mpr ((settles_ask _).mpr ?_))
  refine settles_bind.mpr ((settles_ask _).mpr ?_)
  refine settles_bind.mpr (settles_mapErr.mpr (settles_bind.mpr ((settles_ask _).mpr ?_)))
  refine settles_bind.mpr (settles_sql (fun _ _ ↦ ?_) fun _ ↦ by decide)
  exact settles_sql (fun _ _ ↦ ⟨_, rfl⟩) fun _ ↦ by decide

theorem settles_link_free {u : Uuid} {Q : Unit → Server → Prop} {E : String → Server → Prop}
    (hfree : s.db.oauthIdentities.get? (provider, profile.providerUserId) = none)
    (hQ : ∀ t : Server, t.db.users = s.db.users → Q () t) :
    Settles (machine cx) (OAuthService.link u provider profile) Q E s := by
  refine settles_bind.mpr
    (settles_mapErr.mpr (settles_sql (fun linked hlinked ↦ ?_) fun hnone ↦ ?_))
  · refine (settles_ensure ..).mpr ⟨fun _ ↦ hQ _ rfl, fun hnot ↦ absurd ?_ hnot⟩
    obtain ⟨hanswer, -⟩ := OAuthIdentitySql.run_insert s.now s.db.oauthIdentities u provider
      profile.providerUserId profile.email
    simpa [hfree] using (hanswer.symm.trans hlinked).symm
  · obtain ⟨hanswer, -⟩ := OAuthIdentitySql.run_insert s.now s.db.oauthIdentities u provider
      profile.providerUserId profile.email
    exact absurd (hanswer.symm.trans hnone) (Option.some_ne_none _)

/-- The account of an address is one that is there. -/
theorem settles_accountFor_live {email : String} : Settles (machine cx)
    (OAuthService.accountFor cx email profile)
    (fun user t ↦ t.db.users.find? (liveId user.id) = some user ∧
      t.db.oauthIdentities = s.db.oauthIdentities) (fun reason _ ↦ reason ≠ "invalid_state") s := by
  refine settles_bind.mpr
    (settles_mapErr.mpr (settles_sql (fun found hfound ↦ ?_) fun _ ↦ by decide))
  cases found with
  | some existing =>
      refine settles_bind.mpr ((settles_ensure ..).mpr ⟨fun _ ↦ ?_, fun _ ↦ by decide⟩)
      refine settles_bind.mpr ((settles_ensure ..).mpr ⟨fun _ ↦ ?_, fun _ ↦ by decide⟩)
      obtain ⟨hmem, hmatches⟩ := Table.find?_eq_some (Option.some.inj hfound)
      have hlive : existing.isLive = true := ((Bool.and_eq_true _ _).mp hmatches).2
      refine ⟨?_, rfl⟩
      rw [find?_liveId]
      exact Option.filter_eq_some_iff.mpr ⟨Table.get?_of_mem hmem, hlive⟩
  | none =>
      refine settles_mapErr.mpr (settles_bind.mpr ((settles_ask _).mpr ?_))
      refine settles_bind.mpr (settles_sql (fun created hcreated ↦ ?_) fun _ ↦ by decide)
      cases created with
      | error e => exact show "server_error" ≠ "invalid_state" by decide
      | ok user =>
          obtain ⟨rfl, -, hget⟩ := UsersSql.create_eq_ok hcreated
          refine ⟨?_, rfl⟩
          rw [find?_liveId]
          exact Option.filter_eq_some_iff.mpr ⟨hget, rfl⟩

/-- An identity nobody holds is linked to an account that is there, and can sign in. -/
theorem settles_resolve_free (cx : Context) (linkingUser : Option Uuid)
    (redirect : String)
    (hfree : s.db.oauthIdentities.get? (provider, profile.providerUserId) = none) :
    Settles (machine cx) (OAuthService.resolve cx provider profile linkingUser redirect)
      (fun o _ ↦ (∃ code, o = .loggedIn code redirect) ∨ ∃ u, linkingUser = some u ∧
        isDeleted s.db.users u = false ∧ o = .linked provider redirect)
      (fun reason _ ↦ reason ≠ if linkingUser = none then "invalid_state" else "already_linked")
        s := by
  refine settles_bind.mpr (settles_mapErr.mpr (settles_sql (fun found hfound ↦ ?_) fun hnone ↦ ?_))
  · obtain rfl : none = found := hfree.symm.trans (Option.some.inj hfound)
    cases linkingUser with
    | some userId =>
        refine settles_bind.mpr
          (settles_mapErr.mpr (settles_sql (fun found hfound ↦ ?_) fun hnone ↦ ?_))
        · refine settles_bind.mpr ((settles_okOr ..).mpr ⟨fun user huser ↦ ?_, fun _ ↦ by simp⟩)
          obtain ⟨hsome, -⟩ := Option.filter_eq_some_iff.mp huser
          obtain ⟨hget, -, hlive⟩ := find?_liveId_eq_some ((Option.some.inj hfound).trans hsome)
          have hrow : s.db.users.get? userId = some user := hget
          have hkept : isDeleted s.db.users userId = false := by simp [isDeleted, hrow, hlive]
          exact settles_bind.mpr (settles_link_free hfree fun t _ ↦ .inr ⟨userId, rfl, hkept, rfl⟩)
        · cases hnone
    | none =>
        refine settles_bind.mpr ((settles_okOr ..).mpr ⟨fun email _ ↦ ?_, fun _ ↦ by decide⟩)
        refine settles_bind.mpr (settles_accountFor_live.mono (fun user t ht ↦ ?_) fun _ _ h ↦ h)
        obtain ⟨hlive, hidentities⟩ := ht
        refine settles_bind.mpr (settles_link_free (hidentities ▸ hfree) fun t' ht' ↦ ?_)
        exact (settles_grantFor_live (ht' ▸ hlive)).mono (fun o _ h ↦ .inl h) fun _ _ h ↦ h
  · cases hnone

/-- A callback that gets to an identity of a deleted account is told something else. -/
theorem outcome_callback_ne (h : MeetsDeleted cx s (.oauthCallback provider query answer)) :
    outcome cx (.oauthCallback provider query answer) s ≠
      outcome cx (.oauthCallback provider query answer) (scrub s) := by
  obtain ⟨st, profile, i, harrives, hget, hdeleted⟩ := h
  have harrives' : Arrives cx provider query answer (scrub s) st profile :=
    ⟨harrives.claims, harrives.provider_eq, harrives.error_eq, harrives.code, harrives.answer_eq⟩
  obtain ⟨t, husers, hidentities, halone⟩ := alone_callback_of_arrives harrives
  obtain ⟨t', husers', hidentities', halone'⟩ := alone_callback_of_arrives harrives'
  have hfree : t'.db.oauthIdentities.get? (provider, profile.providerUserId) = none := by
    rw [hidentities']
    refine (Table.get?_deleteWhere ..).trans ?_
    simp [hget, hdeleted]
  have hheld := (settles_resolve_deleted cx st.userId st.redirectPath
    (hidentities ▸ hget) (husers ▸ hdeleted)).alone
  have hgone := (settles_resolve_free cx st.userId st.redirectPath hfree).alone
  rw [← halone] at hheld
  rw [← halone', husers'] at hgone
  rw [outcome_oauthCallback, outcome_oauthCallback]
  intro hsame
  have hpage := Response.callback.inj (Except.ok.inj hsame)
  cases hr : (OAuthService.callback cx provider query (.answering answer)).alone (machine cx) s with
  | mk r t =>
      cases hr' : (OAuthService.callback cx provider query (.answering answer)).alone
        (machine cx) (scrub s) with
      | mk r' t' =>
          rw [hr, hr'] at hpage
          cases r with
          | ok o =>
              obtain ⟨huser, rfl⟩ := hheld.1 _ _ hr
              cases r' with
              | ok o' =>
                  obtain rfl : _ = o' := hpage
                  rcases hgone.1 _ _ hr' with ⟨code, hlogged⟩ | ⟨u, hu, hlive, -⟩
                  · cases hlogged
                  · obtain rfl := Option.some.inj (huser.symm.trans hu)
                    exact absurd (hdeleted.symm.trans hlive) (by decide)
              | error reason => cases hpage
          | error reason =>
              cases r' with
              | ok o' =>
                  obtain rfl : _ = o' := hpage
                  rcases hgone.1 _ _ hr' with ⟨code, hlogged⟩ | ⟨u, hu, hlive, hlinked⟩
                  · cases hlogged
                  · cases hlinked
              | error reason' =>
                  obtain rfl : reason = reason' := CallbackOutcome.failed.inj hpage
                  apply hgone.2 _ _ hr'
                  rcases hheld.2 _ _ hr with ⟨hnone, heq⟩ | ⟨hsome, heq⟩
                  · rw [if_pos hnone, heq]
                  · rw [if_neg (Option.isSome_iff_ne_none.mp hsome), heq]

end Callbacks

/-! ## Registrations -/

section Registrations

variable {cx : Context} {s s' : Server} {caller : Presented} {challengeId credential : String}
  {name : Option String} {u : Uuid} {passkey : Passkey}

/-- A registration up to the insert: whose, which passkey, and the draw for its id. -/
def offering (cx : Context) (caller : Presented) (challengeId credential : String) :
    Req (Uuid × Passkey × ℕ) := do
  let actor ← sessionUser cx caller false
  let state ← PasskeysService.claimChallenge cx challengeId .registration (some actor.id)
    PasskeyError.registrationFailed.into
  let passkey ← okOr PasskeyError.registrationFailed.into (cx.finishRegistration credential state)
  let n ← ask Statement.draw
  pure (actor.id, passkey, n)

def storePasskey (cx : Context) (name : Option String) (offered : Uuid × Passkey × ℕ) :
    Req Response := do
  let stored ← sql (.passkeys (.insert (cx.randomUuid offered.2.2) offered.1
    (PasskeysService.passkeyName name) offered.2.1.credId (cx.encodePasskey offered.2.1)))
  let row ← okOr PasskeyError.alreadyRegistered.into stored
  pure (.passkey ⟨row.id, row.name, row.createdAt, row.lastUsedAt⟩)

theorem handle_passkeyRegisterFinish :
    handle cx (.passkeyRegisterFinish caller challengeId credential name) =
      (offering cx caller challengeId credential >>= storePasskey cx name) := by
  simp only [handle, PasskeysService.finishRegistration, offering, storePasskey, Prog.bind_assoc,
    pure_eq, ret_bind]

theorem only_offering_aside : (offering cx caller challengeId credential).Only
    fun q ↦ q.aside = true := by
  refine .bind ?_ fun actor ↦ .bind ?_ fun _ ↦ .bind (by simp) fun _ ↦
    .bind (by simp [Statement.aside]) fun _ ↦ trivial
  · cases caller with
    | bearer claims => simp [sessionUser, authUser, verifySession, Prog.bind_assoc, Statement.aside]
    | apiKey raw =>
        simp [sessionUser, authUser, authenticateApiKey, Prog.bind_assoc, Statement.aside]
  · simp [PasskeysService.claimChallenge, Statement.aside]

theorem Registers.eq {u' : Uuid} {passkey' : Passkey}
    (h : Registers cx caller challengeId credential s u passkey)
    (h' : Registers cx caller challengeId credential s u' passkey') : u = u' ∧
      passkey = passkey' := by
  obtain ⟨⟨claims, rfl, rfl, -⟩, state, hclaim, -, hfinish⟩ := h
  obtain ⟨⟨claims', hcaller, rfl, -⟩, state', hclaim', -, hfinish'⟩ := h'
  obtain rfl := Presented.bearer.inj hcaller
  obtain rfl : state = state' := Option.some.inj (Option.some.inj (hclaim.symm.trans hclaim'))
  exact ⟨rfl, Option.some.inj (hfinish.symm.trans hfinish')⟩

theorem settles_offering : Settles (machine cx) (offering cx caller challengeId credential)
    (fun offered t ↦ Registers cx caller challengeId credential s offered.1 offered.2.1 ∧
      offered.2.2 = s.draws ∧ t.db.passkeys = s.db.passkeys)
    (fun _ _ ↦ ∀ u passkey, ¬Registers cx caller challengeId credential s u passkey) s := by
  cases caller with
  | bearer claims =>
      have fails {c : Prop} (hc : ¬c) (h : s.now.timestamp - jwtLeewaySecs ≤ claims.exp →
          accepts cx claims s = true → ∀ state passkey,
            ((ChallengeSql.claim challengeId .registration (some claims.sub)).run s.now
              s.db.challenges).1 = some (some state) → cx.decodesState .registration state = true →
                cx.finishRegistration credential state = some passkey → c) :
          ∀ u passkey, ¬Registers cx (.bearer claims) challengeId credential s u passkey := by
        rintro u passkey ⟨⟨claims', hcaller, rfl, hexp, haccepts⟩, state, hclaim, hdecodes, hfinish⟩
        obtain rfl := Presented.bearer.inj hcaller
        exact hc (h hexp haccepts state passkey hclaim hdecodes hfinish)
      refine settles_bind.mpr (settles_bind.mpr (settles_bind.mpr ((settles_ask _).mpr ?_)))
      refine settles_bind.mpr ((settles_ensure ..).mpr ⟨fun hexp ↦ ?_, fun hnot ↦
        fails hnot fun h _ _ _ _ _ _ ↦ h⟩)
      refine settles_bind.mpr (settles_sql (fun found hfound ↦ ?_) (by rintro ⟨⟩))
      have hread : found = s.db.users.find? (liveId claims.sub) := (Option.some.inj hfound).symm
      have haccepts : accepts cx claims s = true ↔ ∃ user, found.filter User.isActive = some user ∧
          user.tokenVersion = claims.tv := by
        rw [accepts_iff, hread, find?_liveId]
        constructor
        · rintro ⟨row, hrow, hlive, hactive, htv⟩
          exact ⟨row, by simp [hrow, hlive, hactive], htv⟩
        · rintro ⟨user, huser, htv⟩
          obtain ⟨hsome, hactive⟩ := Option.filter_eq_some_iff.mp huser
          obtain ⟨hget, hlive⟩ := Option.filter_eq_some_iff.mp hsome
          exact ⟨user, hget, hlive, hactive, htv⟩
      refine settles_bind.mpr ((settles_okOr ..).mpr ⟨fun user huser ↦ ?_, fun hnone ↦
        fails id fun _ h _ _ _ _ _ ↦ ?_⟩)
      swap
      · obtain ⟨user, huser, -⟩ := haccepts.mp h
        exact absurd (hnone.symm.trans huser) (by simp)
      have hid : user.id = claims.sub := by
        obtain ⟨hsome, -⟩ := Option.filter_eq_some_iff.mp huser
        exact (find?_liveId_eq_some (hread ▸ hsome)).2.1
      refine settles_bind.mpr ((settles_ensure ..).mpr ⟨fun htv ↦ ?_, fun hnot ↦
        fails hnot fun _ h _ _ _ _ _ ↦ ?_⟩)
      swap
      · obtain ⟨user', huser', htv⟩ := haccepts.mp h
        obtain rfl : user = user' := Option.some.inj (huser.symm.trans huser')
        exact htv
      refine settles_bind.mpr ((settles_ensure ..).mpr ⟨fun _ ↦ ?_, fun hnot ↦ absurd rfl hnot⟩)
      rw [hid]
      refine settles_bind.mpr (settles_bind.mpr (settles_sql (fun claimed hclaimed ↦ ?_)
        (by rintro ⟨⟩)))
      refine settles_bind.mpr ((settles_okOr ..).mpr ⟨fun state hstate ↦ ?_, fun hnone ↦
        fails id fun _ _ state _ h _ _ ↦ ?_⟩)
      swap
      · obtain rfl : claimed = some state := Option.some.inj (hclaimed.symm.trans h)
        cases hnone
      subst hstate
      refine settles_bind.mpr ((settles_ensure ..).mpr ⟨fun hdecodes ↦ (settles_ret _).mpr ?_,
        fun hnot ↦ fails hnot fun _ _ state' _ h hdecodes _ ↦ ?_⟩)
      swap
      · obtain rfl : state = state' := Option.some.inj (Option.some.inj (hclaimed.symm.trans h))
        exact hdecodes
      refine settles_bind.mpr ((settles_okOr ..).mpr ⟨fun passkey hpasskey ↦ ?_, fun hnone ↦
        fails id fun _ _ state' passkey h _ hpasskey ↦ ?_⟩)
      swap
      · obtain rfl : state = state' := Option.some.inj (Option.some.inj (hclaimed.symm.trans h))
        exact absurd (hnone.symm.trans hpasskey) (by simp)
      refine settles_bind.mpr ((settles_ask _).mpr ⟨⟨⟨claims, rfl, rfl, hexp, ?_⟩, ?_⟩, rfl, rfl⟩)
      · exact haccepts.mpr ⟨user, huser, htv⟩
      · exact ⟨state, hclaimed, hdecodes, hpasskey⟩
  | apiKey raw =>
      refine settles_bind.mpr ((settles_of_returns (sessionUser_apiKey_returns raw false) ?_).mono
        (fun _ _ hfalse ↦ hfalse.elim) fun _ _ h ↦ h)
      rintro e t u passkey ⟨⟨claims, hcaller, -⟩, -⟩
      cases hcaller

theorem mem_scrub_passkeys {p : PasskeyRow} : p ∈ (scrub s).db.passkeys ↔
    p ∈ s.db.passkeys ∧ isDeleted s.db.users p.userId = false := Table.mem_deleteWhere

theorem scrub_passkeys_free {id : Uuid} (hfresh : s.db.passkeys.get? id = none) :
    (scrub s).db.passkeys.get? id = none := by
  refine (Table.get?_deleteWhere ..).trans ?_
  rw [hfresh, Option.filter_none]

/-- A registration that meets no passkey of a deleted account does not see the difference. -/
theorem outcome_registration_scrub
    (hfresh : s.db.passkeys.get? (cx.randomUuid s.draws) = none)
    (h : ¬MeetsDeleted cx s (.passkeyRegisterFinish caller challengeId credential name)) :
    outcome cx (.passkeyRegisterFinish caller challengeId credential name) s =
      outcome cx (.passkeyRegisterFinish caller challengeId credential name) (scrub s) := by
  have hagrees : Agrees (machine cx)
      (handle cx (.passkeyRegisterFinish caller challengeId credential name)) (fun _ _ _ ↦ True)
        s (scrub s) := by
    rw [handle_passkeyRegisterFinish]
    refine agrees_bind (((agrees_aside only_offering_aside).and_settles settles_offering).mono ?_)
    rintro ⟨u, passkey, n⟩ t t' ⟨rfl, hregisters, rfl, hpasskeys⟩
    have hsame : ((PasskeySql.insert (cx.randomUuid s.draws) u (PasskeysService.passkeyName name)
        passkey.credId (cx.encodePasskey passkey)).run t.now t.db.passkeys).1 =
          ((PasskeySql.insert (cx.randomUuid s.draws) u (PasskeysService.passkeyName name)
            passkey.credId (cx.encodePasskey passkey)).run t.now (scrub s).db.passkeys).1 := by
      rw [hpasskeys]
      by_cases htaken : ∃ p ∈ s.db.passkeys, p.credentialId = passkey.credId
      · obtain ⟨p, hp, hcredential⟩ := htaken
        have hlive : isDeleted s.db.users p.userId = false := by
          rw [← Bool.not_eq_true]
          exact fun hdeleted ↦ h ⟨u, passkey, hregisters, p, hp, hcredential, hdeleted⟩
        rw [PasskeySql.run_insert_taken ⟨p, hp, hcredential⟩, PasskeySql.run_insert_taken
          ⟨p, mem_scrub_passkeys.mpr ⟨hp, hlive⟩, hcredential⟩]
      · have hfree : ∀ p ∈ s.db.passkeys, p.credentialId ≠ passkey.credId := fun p hp hcredential ↦
          htaken ⟨p, hp, hcredential⟩
        rw [PasskeySql.run_insert_free hfree hfresh, PasskeySql.run_insert_free
          (fun p hp ↦ hfree p (mem_scrub_passkeys.mp hp).1) (scrub_passkeys_free hfresh)]
    refine agrees_bind (agrees_bind (agrees_ask hsame (agrees_okOr fun stored _ ↦ ?_)))
    exact agrees_bind (agrees_okOr fun row _ ↦ agrees_ret trivial)
  exact hagrees.1

/-- A registration that meets a passkey of a deleted account is refused only because of it. -/
theorem outcome_registration_ne (hunique : CredentialsUnique s)
    (hfresh : s.db.passkeys.get? (cx.randomUuid s.draws) = none)
    (h : MeetsDeleted cx s (.passkeyRegisterFinish caller challengeId credential name)) :
    outcome cx (.passkeyRegisterFinish caller challengeId credential name) s ≠
      outcome cx (.passkeyRegisterFinish caller challengeId credential name) (scrub s) := by
  obtain ⟨u, passkey, hregisters, p, hp, hcredential, hdeleted⟩ := h
  have hregisters' : Registers cx caller challengeId credential (scrub s) u passkey := by
    obtain ⟨⟨claims, hcaller, hsub, hexp, haccepts⟩, hchallenge⟩ := hregisters
    rw [accepts_iff] at haccepts
    exact ⟨⟨claims, hcaller, hsub, hexp, accepts_iff.mpr haccepts⟩, hchallenge⟩
  have hrefused : Settles (machine cx)
      (handle cx (.passkeyRegisterFinish caller challengeId credential name)) (fun _ _ ↦ False)
        (fun _ _ ↦ True) s := by
    rw [handle_passkeyRegisterFinish]
    refine settles_bind.mpr (settles_offering.mono ?_ fun _ _ _ ↦ trivial)
    rintro ⟨u', passkey', n⟩ t ⟨hoffered, rfl, hpasskeys⟩
    obtain ⟨rfl, rfl⟩ := hregisters.eq hoffered
    refine settles_bind.mpr (settles_sql (fun stored hstored ↦ ?_) fun _ ↦ trivial)
    have htaken : ((PasskeySql.insert (cx.randomUuid s.draws) u (PasskeysService.passkeyName name)
        passkey.credId (cx.encodePasskey passkey)).run t.now t.db.passkeys).1 = some none :=
      PasskeySql.run_insert_taken ⟨p, hpasskeys ▸ hp, hcredential⟩
    obtain rfl : none = stored := Option.some.inj (htaken.symm.trans hstored)
    exact settles_bind.mpr ((settles_okOr ..).mpr ⟨nofun, fun _ ↦ trivial⟩)
  have hstored : Settles (machine cx)
      (handle cx (.passkeyRegisterFinish caller challengeId credential name)) (fun _ _ ↦ True)
        (fun _ _ ↦ False) (scrub s) := by
    rw [handle_passkeyRegisterFinish]
    refine settles_bind.mpr (settles_offering.mono ?_ fun _ _ hnot ↦ hnot u passkey hregisters')
    rintro ⟨u', passkey', n⟩ t ⟨hoffered, rfl, hpasskeys⟩
    obtain ⟨rfl, rfl⟩ := hregisters'.eq hoffered
    obtain ⟨row, hfree⟩ : ∃ row, ((PasskeySql.insert (cx.randomUuid s.draws) u
        (PasskeysService.passkeyName name) passkey.credId (cx.encodePasskey passkey)).run t.now
          t.db.passkeys).1 = some (some row) := by
      rw [hpasskeys]
      refine ⟨_, PasskeySql.run_insert_free (fun p' hp' hcredential' ↦ ?_)
        (scrub_passkeys_free hfresh)⟩
      obtain ⟨hmem, hlive⟩ := mem_scrub_passkeys.mp hp'
      obtain rfl := hunique p hp p' hmem (hcredential.trans hcredential'.symm)
      exact absurd (hdeleted.symm.trans hlive) (by decide)
    refine settles_bind.mpr (settles_sql (fun stored hstored ↦ ?_) fun hnone ↦ ?_)
    · obtain rfl : some row = stored := Option.some.inj (hfree.symm.trans hstored)
      exact settles_bind.mpr ((settles_okOr ..).mpr ⟨fun _ _ ↦ trivial, nofun⟩)
    · exact absurd (hfree.symm.trans hnone) (Option.some_ne_none _)
  unfold outcome
  intro hsame
  cases hr : (handle cx (.passkeyRegisterFinish caller challengeId credential name)).alone
      (machine cx) s with
  | mk r t =>
      cases hr' : (handle cx (.passkeyRegisterFinish caller challengeId credential name)).alone
          (machine cx) (scrub s) with
      | mk r' t' =>
          rw [hr, hr'] at hsame
          obtain rfl : r = r' := hsame
          cases r with
          | ok response => exact hrefused.alone.1 _ _ hr
          | error e => exact hstored.alone.2 _ _ hr'

end Registrations

/-! ## All runs -/

section Runs

variable {cx : Context} {s : Server} {c : AppConfig}

theorem credentialsUnique_exec {q : Statement} (h : CredentialsUnique s) :
    CredentialsUnique ((machine cx).exec q s).2 := by
  cases q with
  | sql q =>
      cases q with
      | passkeys q =>
          intro p₁ h₁ p₂ h₂ hsame
          simp only [exec_sql, Sql.run] at h₁ h₂
          cases q with
          | insert id userId name credentialId credentialJson =>
              simp only [PasskeySql.run] at h₁ h₂
              split at h₁
              · exact h p₁ h₁ p₂ (by simp_all) hsame
              next htaken =>
                rw [if_neg htaken] at h₂
                have hfree : ∀ p ∈ s.db.passkeys, p.credentialId ≠ credentialId := by
                  intro p hp hcredential
                  refine htaken (Option.isSome_iff_ne_none.mpr fun hnone ↦ ?_)
                  simpa [hcredential] using Table.find?_eq_none.mp hnone p hp
                split at h₁
                · exact h p₁ h₁ p₂ (by simp_all) hsame
                next hinsert =>
                  simp only [hinsert] at h₂
                  rcases (Table.mem_insert? hinsert).mp h₁ with h₁ | rfl <;>
                    rcases (Table.mem_insert? hinsert).mp h₂ with h₂ | rfl
                  · exact h p₁ h₁ p₂ h₂ hsame
                  · exact absurd hsame (hfree p₁ h₁)
                  · exact absurd hsame.symm (hfree p₂ h₂)
                  · rfl
          | updateAfterUse id credentialJson =>
              simp only [PasskeySql.run] at h₁ h₂
              obtain ⟨r₁, hr₁, rfl⟩ := Table.mem_updateWhere.mp h₁
              obtain ⟨r₂, hr₂, rfl⟩ := Table.mem_updateWhere.mp h₂
              have hrows : r₁ = r₂ :=
                h r₁ hr₁ r₂ hr₂ (by split at hsame <;> split at hsame <;> exact hsame)
              rw [hrows]
          | delete userId id =>
              exact h p₁ (Table.mem_deleteWhere.mp h₁).1 p₂ (Table.mem_deleteWhere.mp h₂).1 hsame
          | listByUser userId => exact h p₁ h₁ p₂ h₂ hsame
      | _ => exact h
  | _ => exact h

theorem Reached.credentialsUnique (hc : Reached cx s c) (hstart : CredentialsUnique s) :
    CredentialsUnique c.world.store :=
  hc.live_of_start CredentialsUnique (fun _ _ ↦ Iff.rfl) hstart fun x _ hlive hend ↦ by
    cases x with
    | ran i k q b => exact hend (credentialsUnique_exec hlive)
    | answered => exact hend

theorem deleted_invisible_iff (hc : Reached cx s c) (hstart : CredentialsUnique s) {k : Request}
    (hk : k.signsUp = true)
    (hfresh : c.world.store.db.passkeys.get? (cx.randomUuid c.world.store.draws) = none) :
    outcome cx k c.world.store = outcome cx k (scrub c.world.store) ↔
      ¬MeetsDeleted cx c.world.store k := by
  cases k with
  | oauthCallback provider query answer =>
      exact ⟨fun hsame hmeets ↦ outcome_callback_ne hmeets hsame, outcome_callback_scrub⟩
  | passkeyRegisterFinish caller challengeId credential name =>
      exact ⟨fun hsame hmeets ↦
        outcome_registration_ne (hc.credentialsUnique hstart) hfresh hmeets hsame,
          outcome_registration_scrub hfresh⟩
  | _ => cases hk

end Runs

namespace DeletionSample

open Sample

def start : Server := server (.single (account 1 "root@example.com" .admin))

/-- Ada's callback with the state of the draw `n`. -/
def returns (n : ℕ) : Request :=
  .oauthCallback .google ⟨some "code", some (Context.sample.randomToken n), none⟩
    (some ⟨"ada", some "ada@example.com", true, none⟩)

/-- Ada signs up with Google, is deleted, and comes back. -/
def deleted : List (Action Request ℕ) :=
  alone 0 (.oauthLogin .google none) 6 ++ alone 1 (returns 0) 12 ++
    alone 2 (.deleteUser (bearer 1 .admin) 1002) 5 ++ alone 3 (.oauthLogin .google none) 6

/-- Nobody is linking an identity, and Ada's callback fails where it would sign her up if her
deleted account had never been. -/
def staysOut (c : AppConfig) : Bool :=
  (c.world.store.db.oauthStates.rows.all fun st ↦ st.userId.isNone) &&
    match outcome .sample (returns 4) c.world.store,
      outcome .sample (returns 4) (scrub c.world.store) with
    | .ok (.callback (.failed _)), .ok (.callback (.loggedIn ..)) => true
    | _, _ => false

theorem outcome_ne_of_staysOut {c : AppConfig} (h : staysOut c = true) :
    outcome .sample (returns 4) c.world.store ≠
      outcome .sample (returns 4) (scrub c.world.store) := by
  intro hsame
  obtain ⟨-, hdiffers⟩ := (Bool.and_eq_true_iff ..).mp h
  rw [hsame] at hdiffers
  split at hdiffers
  next heq heq' =>
    rw [heq] at heq'
    cases heq'
  next => cases hdiffers

end DeletionSample

theorem deleted_invisible_iff_signUp :
    ∃ c, Reached .sample DeletionSample.start c ∧
      isDeleted c.world.store.db.users 1002 = true ∧
        MeetsDeleted .sample c.world.store (DeletionSample.returns 4) := by
  let test : AppConfig → Bool := fun c ↦ DeletionSample.staysOut c &&
    isDeleted c.world.store.db.users 1002 &&
    (c.world.store.db.passkeys.get? (Context.sample.randomUuid c.world.store.draws)).isNone
  obtain ⟨c, hc, htest⟩ : ∃ c, Reached .sample DeletionSample.start c ∧ test c = true :=
    Reachable.of_schedule DeletionSample.deleted test (by decide) (by decide)
  simp only [test, Bool.and_eq_true, Option.isNone_iff_eq_none] at htest
  obtain ⟨⟨hstaysOut, hdeleted⟩, hfresh⟩ := htest
  have hnone : CredentialsUnique DeletionSample.start := by rintro p ⟨⟩
  refine ⟨c, hc, hdeleted, ?_⟩
  by_contra hmeets
  exact DeletionSample.outcome_ne_of_staysOut hstaysOut
    ((deleted_invisible_iff hc hnone rfl hfresh).mpr hmeets)

/-- A deleted account's Google identity keeps its owner from signing up again. -/
theorem deleted_identity_blocks :
    ¬∀ (cx : Context) (s : Server) (c : AppConfig) (k : Request), Reached cx s c →
      k.signsUp = true →
      (∀ st ∈ c.world.store.db.oauthStates, ∀ u, st.userId = some u →
        isDeleted c.world.store.db.users u = false) →
          outcome cx k c.world.store = outcome cx k (scrub c.world.store) := by
  intro h
  obtain ⟨c, hc, htest⟩ : ∃ c, Reached .sample DeletionSample.start c ∧
      DeletionSample.staysOut c = true :=
    Reachable.of_schedule DeletionSample.deleted DeletionSample.staysOut (by decide) (by decide)
  apply DeletionSample.outcome_ne_of_staysOut htest
  apply h .sample _ c (DeletionSample.returns 4) hc rfl
  intro st hst u hu
  have hnone := List.all_eq_true.mp ((Bool.and_eq_true_iff ..).mp htest).1 st hst
  simp [hu] at hnone

end ApiStarter
