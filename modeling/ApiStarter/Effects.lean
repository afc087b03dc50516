import ApiStarter.Requests

/-!
# What a request can write

Every statement that some property has to account for has an effect, and
`handle_only` lists, once for every request, the effects its handler can reach.
Properties then look only at the requests that can disturb them.
-/

namespace ApiStarter

open Interleave Interleave.Prog

inductive Effect
  | none
  | createUser
  | adminChange
  | setPassword
  | changeEmail
  | markVerified
  | recordFailure
  | resetFailures
  | totp
  | verifyCode
  | issueToken (purpose : TokenPurpose)
  | retireTokens (purpose : TokenPurpose)
  | claimToken (purpose : TokenPurpose)
  | renewRecoveryCodes
  | claimRecoveryCode
  | insertState
  | claimState
  | insertIdentity
  | deleteIdentity
  | insertGrant
  | claimGrant
  | insertPasskey
  | deletePasskey
  | insertChallenge
  | claimChallenge
  | createQr
  | scanQr
  | resolveQr (target : QrStatus)
  | wrongCodeQr
  | consumeQr
  | mailLink
  deriving DecidableEq

@[reducible] def UsersSql.effect : UsersSql → Effect
  | .create .. => .createUser
  | .findByEmail _ => .none
  | .findById _ => .none
  | .update .. => .adminChange
  | .softDelete .. => .adminChange
  | .countActiveAdmins => .none
  | .setPasswordHash .. => .setPassword
  | .recordFailedLogin .. => .recordFailure
  | .resetFailedLogins _ => .resetFailures
  | .markEmailVerified _ => .markVerified
  | .changeEmail .. => .changeEmail
  | .setPendingTotpSecret .. => .totp
  | .enableTotp _ => .totp
  | .disableTotp _ => .totp

@[reducible] def AuthTokenSql.effect : AuthTokenSql → Effect
  | .insert _ purpose .. => .issueToken purpose
  | .invalidateUnused _ purpose => .retireTokens purpose
  | .findUnused .. => .none
  | .claim purpose _ => .claimToken purpose
  | .countIssuedSince .. => .none
  | .deleteExpired _ => .none

@[reducible] def RecoveryCodeSql.effect : RecoveryCodeSql → Effect
  | .lockAll _ => .none
  | .replaceAll .. => .renewRecoveryCodes
  | .claim .. => .claimRecoveryCode
  | .deleteAll _ => .renewRecoveryCodes

@[reducible] def OAuthStateSql.effect : OAuthStateSql → Effect
  | .deleteExpired _ => .none
  | .insert _ => .insertState
  | .claim _ => .claimState

@[reducible] def OAuthIdentitySql.effect : OAuthIdentitySql → Effect
  | .find .. => .none
  | .list _ => .none
  | .insert .. => .insertIdentity
  | .delete .. => .deleteIdentity

@[reducible] def LoginGrantSql.effect : LoginGrantSql → Effect
  | .deleteExpired _ => .none
  | .insert _ => .insertGrant
  | .claim _ => .claimGrant

@[reducible] def PasskeySql.effect : PasskeySql → Effect
  | .listByUser _ => .none
  | .insert .. => .insertPasskey
  | .updateAfterUse .. => .none
  | .delete .. => .deletePasskey

@[reducible] def ChallengeSql.effect : ChallengeSql → Effect
  | .deleteExpired _ => .none
  | .insert _ => .insertChallenge
  | .claim .. => .claimChallenge

@[reducible] def QrSql.effect : QrSql → Effect
  | .deleteExpired _ => .none
  | .insert .. => .createQr
  | .find _ => .none
  | .markScanned .. => .scanQr
  | .resolve _ _ target => .resolveQr target
  | .recordWrongCode _ => .wrongCodeQr
  | .consume _ => .consumeQr

@[reducible] def Sql.effect : Sql → Effect
  | .users q => q.effect
  | .authTokens q => q.effect
  | .recoveryCodes q => q.effect
  | .apiKeys _ => .none
  | .oauthStates q => q.effect
  | .oauthIdentities q => q.effect
  | .loginGrants q => q.effect
  | .passkeys q => q.effect
  | .challenges q => q.effect
  | .qrSessions q => q.effect
  | .jobs _ => .none
  | .recordAudit .. => .none
  | .signInMethodCount _ => .none

@[reducible] def Mail.effect : Mail → Effect
  | .verification .. => .mailLink
  | .passwordReset .. => .mailLink
  | .invitation .. => .mailLink
  | .passwordChanged _ => .none
  | .emailChangeConfirm .. => .mailLink
  | .emailChangeNotice .. => .none

@[reducible] def Statement.effect : Statement → Effect
  | .sql q => q.effect
  | .clock => .none
  | .draw => .none
  | .mail m => m.effect
  | .verifyCode .. => .verifyCode

/-- The effects a request can have besides `none`. -/
@[reducible] def Request.effects : Request → List Effect
  | .createUser .. => [.createUser]
  | .updateUser .. => [.adminChange]
  | .deleteUser .. => [.adminChange]
  | .updateProfile .. => [.adminChange]
  | .bootstrapAdmin .. => [.createUser]
  | .register .. =>
      [.createUser, .retireTokens .emailVerification, .issueToken .emailVerification, .mailLink]
  | .login .. => [.recordFailure, .resetFailures, .retireTokens .twoFactorPending,
      .issueToken .twoFactorPending]
  | .twoFactorSetup _ => [.totp]
  | .twoFactorEnable .. => [.verifyCode, .totp, .renewRecoveryCodes]
  | .twoFactorDisable .. => [.totp, .renewRecoveryCodes]
  | .twoFactorVerify .. => [.verifyCode, .claimRecoveryCode, .claimToken .twoFactorPending]
  | .forgotPassword _ => [.retireTokens .passwordReset, .issueToken .passwordReset, .mailLink]
  | .resetPassword .. =>
      [.claimToken .passwordReset, .setPassword, .markVerified, .retireTokens .passwordReset]
  | .changePassword .. => [.setPassword]
  | .inviteUser .. =>
      [.createUser, .retireTokens .passwordReset, .issueToken .passwordReset, .mailLink]
  | .verifyEmail _ => [.claimToken .emailVerification, .markVerified]
  | .resendVerification _ =>
      [.retireTokens .emailVerification, .issueToken .emailVerification, .mailLink]
  | .requestEmailChange .. => [.retireTokens .emailChange, .issueToken .emailChange, .mailLink]
  | .confirmEmailChange _ => [.claimToken .emailChange, .changeEmail, .retireTokens .emailChange]
  | .oauthLogin .. => [.insertState]
  | .oauthLink .. => [.insertState]
  | .oauthCallback .. => [.claimState, .createUser, .insertIdentity, .insertGrant]
  | .oauthExchange _ => [.claimGrant]
  | .oauthUnlink .. => [.deleteIdentity]
  | .passkeyRegisterBegin _ => [.insertChallenge]
  | .passkeyRegisterFinish .. => [.claimChallenge, .insertPasskey]
  | .passkeyLoginBegin => [.insertChallenge]
  | .passkeyLoginFinish .. => [.claimChallenge]
  | .passkeyDelete .. => [.deletePasskey]
  | .qrCreate .. => [.createQr]
  | .qrScan .. => [.scanQr]
  | .qrApprove .. => [.resolveQr .approved, .wrongCodeQr]
  | .qrReject .. => [.resolveQr .rejected]
  | .qrPoll .. => [.consumeQr]
  | .cleanup => []

section Only

variable {S : Statement → Prop} {α β : Type} {cx : Context}

-- The type of the answer reduces at a concrete statement, so it is not indexed.
@[simp] theorem only_sql {q : Sql} :
    @Only _ _ _ (no_index q.Res) S (sql q) ↔ S (.sql q) := by
  simp [sql]

@[simp] theorem only_sql_bind {q : Sql} {f : q.Res → Req α} :
    (@Bind.bind _ _ (no_index q.Res) _ (sql q) f).Only S ↔ S (.sql q) ∧ ∀ r, (f r).Only S := by
  simp only [sql, ask_bind]
  refine and_congr_right fun _ ↦ ⟨fun h r ↦ h (some r), fun h r ↦ ?_⟩
  cases r with
  | none => trivial
  | some r => exact h r

@[simp] theorem only_okOr_bind {ε : Type} {e : ε} {o : Option α}
    {f : α → Prog Statement.Res ε β} :
    (okOr e o >>= f).Only S ↔ ∀ a, o = some a → (f a).Only S := by
  cases o <;> simp

@[simp] theorem only_ensure_bind {ε : Type} {c : Prop} [Decidable c] {e : ε}
    {f : Unit → Prog Statement.Res ε β} :
    (ensure c e >>= f).Only S ↔ (c → (f ()).Only S) := by
  by_cases h : c <;> simp [ensure, h]

@[simp] theorem only_clock_bind {ε : Type} {f : Time → Prog Statement.Res ε β} :
    (clock >>= f).Only S ↔ S .clock ∧ ∀ t, (f t).Only S := Iff.rfl

@[simp] theorem only_send {ε : Type} {m : Mail} :
    (send m : Prog Statement.Res ε Unit).Only S ↔ S (.mail m) := by
  simp [send]

@[simp] theorem only_send_bind {ε : Type} {m : Mail} {f : Unit → Prog Statement.Res ε β} :
    (send m >>= f).Only S ↔ S (.mail m) ∧ (f ()).Only S :=
  and_congr_right fun _ ↦ ⟨fun h ↦ h (), fun h _ ↦ h⟩

@[simp] theorem only_generateToken_bind {ε : Type} {f : GeneratedToken → Prog Statement.Res ε β} :
    (generateToken cx >>= f).Only S ↔
      S .draw ∧ ∀ n, (f ⟨cx.randomToken n, cx.sha256 (cx.randomToken n)⟩).Only S := Iff.rfl

@[simp] theorem only_replaceAll_bind {u : Uuid} {hashes : List String} {f : Unit → Req α} :
    (TotpRecoveryCodeRepository.replaceAll u hashes >>= f).Only S ↔
      S (.sql (.recoveryCodes (.lockAll u))) ∧ ∀ found : List String,
        S (.sql (.recoveryCodes (.replaceAll u found hashes))) ∧ ∀ r, (f r).Only S := by
  rw [TotpRecoveryCodeRepository.replaceAll, Prog.bind_assoc, only_sql_bind]
  exact and_congr_right fun _ ↦ forall_congr' fun _ ↦ only_sql_bind

@[simp] theorem only_orThrow {r : Except UsersError α} : (orThrow r).Only S := by
  cases r <;> trivial

theorem only_issueJwt {u : User} (hS : S .clock) : (issueJwt cx u).Only S := ⟨hS, fun _ ↦ trivial⟩

theorem effects_subset {l l' : List Effect} (h : l ⊆ l')
    (hS : ∀ q : Statement, q.effect ∈ l' → S q) :
    ∀ q : Statement, q.effect ∈ l → S q := fun q hq ↦ hS q (h hq)

section Callers

variable (hS : ∀ q, q.effect = .none → S q)
include hS

theorem only_authUser (caller : Presented) (isSafe : Bool) :
    (authUser cx caller isSafe).Only S := by
  cases caller with
  | bearer claims =>
      simp [authUser, verifySession, hS]
  | apiKey raw =>
      simp [authUser, authenticateApiKey, Prog.bind_assoc, hS]

theorem only_sessionUser (caller : Presented) (isSafe : Bool) :
    (sessionUser cx caller isSafe).Only S :=
  (only_authUser hS caller isSafe).bind fun _ ↦ by simp

theorem only_adminUser (caller : Presented) (isSafe : Bool) :
    (adminUser cx caller isSafe).Only S :=
  (only_authUser hS caller isSafe).bind fun _ ↦ by simp

theorem only_recordAudit {a : Uuid} {action : String} {u : Option Uuid} {d : AuditDetails} :
    (recordAudit a action u d).Only S := by
  refine .bind (.attempt ?_) fun _ ↦ trivial
  simp [hS]

theorem only_updateCounters (result : AuthenticationResult)
    (passkeys : List (PasskeyRow × Passkey)) :
    (PasskeysService.updateCounters cx result passkeys).Only S := by
  induction passkeys with
  | nil => trivial
  | cons entry rest ih =>
      refine .bind ?_ fun _ ↦ ih
      unfold PasskeysService.updateCounter
      split <;> simp [hS]

theorem only_findLive {id : String} : (QrLoginService.findLive id).Only S := by
  refine .bind (by simp [QrLoginService.find, hS]) fun _ ↦ ?_
  simp [hS]

end Callers

theorem only_insertUser {new : NewUser} (hNone : ∀ q, q.effect = .none → S q)
    (hCreate : ∀ id, S (.sql (.users (.create id new)))) :
    (UsersService.insertUser cx new).Only S := by
  simp [UsersService.insertUser, hNone, hCreate]

theorem only_rejectPasswordIfPolicyViolation {password email : String} {name : Option String} :
    (UsersService.rejectPasswordIfPolicyViolation cx password email name).Only S := by
  unfold UsersService.rejectPasswordIfPolicyViolation
  split <;> simp

theorem only_createWithPassword {email password : String} {name : Option String} {role : Role}
    {verified : Bool} (hNone : ∀ q, q.effect = .none → S q) (hCreate : ∀ id hash,
      S (.sql (.users (.create id ⟨cx.normalizeEmail email, hash, name, role, verified, true⟩)))) :
    (UsersService.createWithPassword cx email password name role verified).Only S := by
  refine .bind only_rejectPasswordIfPolicyViolation fun _ ↦ .bind ?_ fun hash ↦
    only_insertUser hNone fun id ↦ hCreate id hash
  simp [hashBlocking, hNone]

theorem only_setPassword {id : Uuid} {password : String}
    (hS : ∀ q, q.effect ∈ [.none, .setPassword] → S q) :
    (UsersService.setPassword cx id password).Only S := by
  refine .bind ?_ fun _ ↦ .bind only_rejectPasswordIfPolicyViolation fun _ ↦ .bind ?_ fun _ ↦ ?_
  · simp [UsersService.require, hS]
  · simp [hashBlocking, hS]
  · simp [hS]

theorem only_issue {u : Uuid} {purpose : TokenPurpose} {ttl : Time} {newEmail : Option String}
    (hS : ∀ q, q.effect ∈ [.none, .retireTokens purpose, .issueToken purpose] → S q) :
    (OneTimeTokenService.issue cx u purpose ttl newEmail).Only S := by
  simp [OneTimeTokenService.issue, hS]

theorem only_updateProfile {actor : AuthUser} {name : Option String}
    (hUpdate : S (.sql (.users (.update actor.id ⟨name, none, none⟩ false)))) :
    (UsersService.updateProfile actor name).Only S :=
  .bind (by simp [hUpdate]) fun _ ↦ .bind only_orThrow fun _ ↦ by simp

theorem only_sendVerification {u : User}
    (hS : ∀ q, q.effect ∈ [.none, .retireTokens .emailVerification, .issueToken .emailVerification,
      .mailLink] → S q) : (EmailVerificationService.sendVerification cx u).Only S :=
  (only_issue (effects_subset (by simp) hS)).bind fun _ ↦ by simp [hS]

/-- The guard of an administrator's update follows from its patch. -/
theorem only_update {actor : AuthUser} {id : Uuid} {dto : UpdateUserDto}
    (hNone : ∀ q, q.effect = .none → S q)
    (hUpdate : ∀ patch : UserPatch, S (.sql (.users (.update id patch patch.removesAdmin)))) :
    (UsersService.update actor id dto).Only S := by
  refine .bind (by simp [Policy.checkAdminUpdate]) fun _ ↦ ?_
  refine .bind (by simp [UsersService.require, hNone]) fun before ↦ ?_
  refine .bind (only_sql.mpr (hUpdate ⟨dto.displayName, dto.role, dto.isActive⟩)) fun _ ↦
    .bind only_orThrow fun _ ↦ ?_
  refine .bind (by simp) fun _ ↦ .bind ?_ fun _ ↦ .bind ?_ fun _ ↦ trivial
  · unfold UsersService.auditRole
    repeat' split
    all_goals first | exact only_recordAudit hNone | trivial
  · unfold UsersService.auditActive
    repeat' split
    all_goals first | exact only_recordAudit hNone | trivial

theorem only_delete {actor : AuthUser} {id : Uuid} (hNone : ∀ q, q.effect = .none → S q)
    (hDelete : ∀ guard, S (.sql (.users (.softDelete id guard)))) :
    (UsersService.delete actor id).Only S := by
  refine .bind (by simp [Policy.checkDelete]) fun _ ↦ ?_
  refine .bind (by simp [UsersService.require, hNone]) fun before ↦ ?_
  refine .bind (by simp [hDelete]) fun _ ↦ .bind only_orThrow fun _ ↦ .bind (by simp) fun _ ↦ ?_
  exact .bind (only_recordAudit hNone) fun _ ↦ trivial

theorem only_login {email password : String}
    (hS : ∀ q, q.effect ∈ [.none, .recordFailure, .resetFailures, .retireTokens .twoFactorPending,
      .issueToken .twoFactorPending] → S q) : (SessionService.login cx email password).Only S := by
  refine .bind (by simp [UsersService.findByEmail, hS]) fun _ ↦ .bind (by simp) fun user ↦ ?_
  refine .bind ?_ fun _ ↦ .bind (by simp) fun _ ↦ only_ite.mpr ⟨fun _ ↦ ?_, fun _ ↦ ?_⟩
  · unfold SessionService.isLocked
    split <;> simp [hS]
  · simp only [SessionService.signIn, only_sql_bind, only_ensure_bind, only_ite]
    refine ⟨by simp [hS], fun _ _ _ ↦ ⟨fun _ ↦ ?_, fun _ ↦ ?_⟩⟩
    · exact (only_issue (effects_subset (by simp) hS)).bind fun _ ↦ trivial
    · exact (only_issueJwt (by simp [hS])).bind fun _ ↦ trivial
  · simp [SessionService.wrongPassword, hS]

theorem only_verifyLogin {pendingToken code : String}
    (hS : ∀ q, q.effect ∈ [.none, .verifyCode, .claimRecoveryCode, .claimToken .twoFactorPending] →
      S q) : (TotpService.verifyLogin cx pendingToken code).Only S := by
  refine .bind (by simp [OneTimeTokenService.peek, hS]) fun claim ↦ ?_
  refine .bind (by simp [hS]) fun found ↦ .bind (by simp) fun user ↦ .bind (by simp) fun secret ↦ ?_
  refine .bind ?_ fun _ ↦ .bind (by simp) fun _ ↦ .bind ?_ fun _ ↦ only_issueJwt (by simp [hS])
  · simp only [TotpService.checkCode, ask_bind, only_stmt]
    refine ⟨by simp [hS], fun accepted ↦ ?_⟩
    cases accepted <;> simp [hS]
  · simp [OneTimeTokenService.redeem, hS]

theorem only_forgot {email : String}
    (hS : ∀ q, q.effect ∈ [.none, .retireTokens .passwordReset, .issueToken .passwordReset,
      .mailLink] → S q) : (PasswordResetService.forgot cx email).Only S := by
  refine .bind (by simp [UsersService.findByEmail, hS]) fun found ↦ ?_
  cases found with
  | none => trivial
  | some user =>
      refine only_ite.mpr ⟨fun _ ↦ ?_, fun _ ↦ trivial⟩
      refine .bind (by simp [OneTimeTokenService.issuedWithin, hS]) fun _ ↦ ?_
      refine only_ite.mpr ⟨fun _ ↦ trivial, fun _ ↦ ?_⟩
      exact (only_issue (effects_subset (by simp) hS)).bind fun _ ↦ by simp [hS]

theorem only_start {provider : Provider} {userId : Option Uuid} {path : String}
    (hNone : ∀ q, q.effect = .none → S q) (hInsert : ∀ row : OAuthState,
      row.redirectPath = path → S (.sql (.oauthStates (.insert row)))) :
    (OAuthService.start cx provider userId path).Only S := by
  simp only [OAuthService.start, only_ensure_bind, only_generateToken_bind, only_clock_bind]
  refine fun _ ↦ ⟨by simp [hNone], fun _ ↦ ⟨by simp [hNone], fun _ ↦ ⟨by simp [hNone], fun _ ↦ ?_⟩⟩⟩
  exact .bind (by simp [OAuthService.insertState, hNone, hInsert]) fun _ ↦ by simp

theorem only_accountFor {email : String} {profile : ProviderProfile}
    (hNone : ∀ q, q.effect = .none → S q) (hCreate : ∀ id name, S (.sql (.users
      (.create id ⟨cx.normalizeEmail email, "!no-password", name, .user, true, false⟩)))) :
    (OAuthService.accountFor cx email profile).Only S := by
  refine .bind (.mapErr (by simp [UsersService.findByEmail, hNone])) fun found ↦ ?_
  cases found with
  | some existing => simp
  | none => exact .mapErr (only_insertUser hNone fun id ↦ hCreate id _)

section OAuth

variable (hS : ∀ q, q.effect ∈ [.none, .insertIdentity, .insertGrant] → S q)
include hS

theorem only_grantFor {id : Uuid} {redirect : String} :
    (OAuthService.grantFor cx id redirect).Only S := by
  refine .bind (.mapErr (by simp [hS])) fun _ ↦ .bind (by simp) fun _ ↦ .bind (by simp) fun _ ↦ ?_
  refine .bind (by simp) fun _ ↦ ?_
  simp only [only_generateToken_bind, only_clock_bind]
  refine ⟨by simp [hS], fun _ ↦ ⟨by simp [hS], fun _ ↦ ?_⟩⟩
  exact .bind (.mapErr (by simp [OAuthService.insertGrant, hS])) fun _ ↦ trivial

theorem only_link {id : Uuid} {provider : Provider} {profile : ProviderProfile} :
    (OAuthService.link id provider profile).Only S :=
  .bind (.mapErr (by simp [hS])) fun _ ↦ by simp

theorem only_resolve {provider : Provider} {profile : ProviderProfile} {u : Option Uuid}
    {redirect : String}
    (hCreate : ∀ email, profile.email = some email → profile.emailVerified = true →
      ∀ id name, S (.sql (.users
        (.create id ⟨cx.normalizeEmail email, "!no-password", name, .user, true, false⟩)))) :
    (OAuthService.resolve cx provider profile u redirect).Only S := by
  refine .bind (.mapErr (by simp [hS])) fun found ↦ ?_
  cases found with
  | some identity =>
      cases u with
      | some userId => exact only_ite.mpr ⟨fun _ ↦ trivial, fun _ ↦ trivial⟩
      | none => exact only_grantFor hS
  | none =>
      cases u with
      | some userId =>
          refine .bind (.mapErr (by simp [hS])) fun _ ↦ .bind (by simp) fun _ ↦ ?_
          exact (only_link hS).bind fun _ ↦ trivial
      | none =>
          refine only_okOr_bind.mpr fun email hemail ↦ .bind (only_accountFor ?_ ?_) fun _ ↦ ?_
          · exact fun q hq ↦ hS q (by simp [hq])
          · obtain ⟨hvouched, hverified⟩ := Option.filter_eq_some_iff.mp hemail
            exact hCreate email hvouched hverified
          · exact (only_link hS).bind fun _ ↦ only_grantFor hS

end OAuth

theorem only_handleCallback {provider : Provider} {query : CallbackQuery}
    {answer : Option ProviderProfile}
    (hS : ∀ q, q.effect ∈ [.none, .claimState, .insertIdentity, .insertGrant] → S q)
    (hCreate : ∀ profile email, answer = some profile →
      profile.email = some email → profile.emailVerified = true → ∀ id name, S (.sql (.users
        (.create id ⟨cx.normalizeEmail email, "!no-password", name, .user, true, false⟩)))) :
    (OAuthService.handleCallback cx provider query (.answering answer)).Only S := by
  refine .bind (.attempt ?_) fun r ↦ by cases r <;> trivial
  refine .bind (by simp) fun _ ↦ .bind (.mapErr (by simp [hS])) fun _ ↦ .bind (by simp) fun _ ↦ ?_
  refine .bind (by simp) fun _ ↦ .bind (by simp) fun _ ↦ .bind (by simp) fun _ ↦ ?_
  refine .bind (by simp) fun _ ↦ ?_
  exact only_okOr_bind.mpr fun profile hprofile ↦
    only_resolve (effects_subset (by simp) hS) fun email hemail hverified ↦
      hCreate profile email hprofile hemail hverified


theorem only_storeChallenge {kind : ChallengeKind} {userId : Option Uuid} {stateJson : String}
    (hS : ∀ q, q.effect ∈ [.none, .insertChallenge] → S q) :
    (PasskeysService.storeChallenge cx kind userId stateJson).Only S := by
  simp [PasskeysService.storeChallenge, hS]

theorem only_claimChallenge {id : String} {kind : ChallengeKind} {userId : Option Uuid}
    {failed : AppError} (hS : ∀ q, q.effect = .claimChallenge → S q) :
    (PasskeysService.claimChallenge cx id kind userId failed).Only S := by
  simp [PasskeysService.claimChallenge, hS]

theorem only_finishLogin {challengeId credential : String}
    (hS : ∀ q, q.effect ∈ [.none, .claimChallenge] → S q) :
    (PasskeysService.finishLogin cx challengeId credential).Only S := by
  have hNone : ∀ q, q.effect = .none → S q := fun q hq ↦ hS q (by simp [hq])
  refine .bind (only_claimChallenge fun q hq ↦ hS q (by simp [hq])) fun _ ↦ ?_
  refine .bind (by simp) fun _ ↦ .bind (by simp [hS]) fun _ ↦ .bind (by simp) fun _ ↦ ?_
  refine .bind (by simp [hS]) fun _ ↦ ?_
  refine .bind (by simp) fun _ ↦ .bind (only_updateCounters hNone _ _) fun _ ↦ ?_
  exact .bind (by simp) fun _ ↦ only_issueJwt (by simp [hS])

theorem only_scan {actor : AuthUser} {id : String} (hS : ∀ q, q.effect ∈ [.none, .scanQr] → S q) :
    (QrLoginService.scan actor id).Only S := by
  have hFind : (QrLoginService.findLive id).Only S := only_findLive fun q hq ↦ hS q (by simp [hq])
  refine hFind.bind fun session ↦ .bind ?_ fun _ ↦ trivial
  unfold QrLoginService.claimScan
  split
  · simp only [only_sql_bind]
    refine ⟨by simp [hS], fun marked ↦ only_ite.mpr ⟨fun _ ↦ trivial, fun _ ↦ ?_⟩⟩
    exact hFind.bind fun _ ↦ by simp
  all_goals simp

theorem only_approve {actor : AuthUser} {id code : String}
    (hS : ∀ q, q.effect ∈ [.none, .resolveQr .approved, .wrongCodeQr] → S q) :
    (QrLoginService.approve actor id code).Only S := by
  have hFind : (QrLoginService.findLive id).Only S := only_findLive fun q hq ↦ hS q (by simp [hq])
  refine hFind.bind fun session ↦ .bind (by simp [QrLoginService.requireScannedBy]) fun _ ↦ ?_
  refine only_ite.mpr ⟨fun _ ↦ ?_, fun _ ↦ ?_⟩
  · simp [QrLoginService.wrongCode, hS]
  · simp [hS]

theorem only_reject {actor : AuthUser} {id : String}
    (hS : ∀ q, q.effect ∈ [.none, .resolveQr .rejected] → S q) :
    (QrLoginService.reject actor id).Only S := by
  have hFind : (QrLoginService.findLive id).Only S := only_findLive fun q hq ↦ hS q (by simp [hq])
  refine hFind.bind fun session ↦ .bind (by simp [QrLoginService.requireScannedBy]) fun _ ↦ ?_
  simp [hS]

theorem only_poll {id : String} {secret : Option String}
    (hS : ∀ q, q.effect ∈ [.none, .consumeQr] → S q) :
    (QrLoginService.poll cx id secret).Only S := by
  refine .bind (by simp [QrLoginService.find, hS]) fun session ↦ .bind (by simp) fun _ ↦ ?_
  split
  · trivial
  · trivial
  · simp only [only_clock_bind, only_ite]
    refine ⟨by simp [hS], fun _ ↦ ⟨fun _ ↦ trivial, fun _ ↦ ⟨fun _ ↦ ?_, fun _ ↦ trivial⟩⟩⟩
    refine .bind (by simp [hS]) fun consumed ↦ ?_
    cases consumed with
    | none => trivial
    | some userId =>
        refine .bind (by simp [hS]) fun _ ↦ .bind (by simp) fun _ ↦ .bind (by simp) fun _ ↦ ?_
        exact (only_issueJwt (by simp [hS])).bind fun _ ↦ trivial

/-- A handler reaches the effects listed for its request and no others. -/
theorem handle_only (k : Request) (hS : ∀ q, q.effect ∈ .none :: k.effects → S q) :
    (handle cx k).Only S := by
  have hNone : ∀ q, q.effect = .none → S q := fun q hq ↦ hS q (by simp [hq])
  have admin (caller : Presented) : (adminUser cx caller false).Only S := only_adminUser hNone _ _
  have session (caller : Presented) : (sessionUser cx caller false).Only S :=
    only_sessionUser hNone _ _
  have auth (caller : Presented) : (authUser cx caller false).Only S := only_authUser hNone _ _
  cases k with
  | createUser caller email password displayName role =>
      refine .bind (admin caller) fun _ ↦
        .bind (.bind (only_createWithPassword hNone (by simp [hS]))
        fun _ ↦ ?_)
        fun _ ↦ trivial
      exact .bind (only_recordAudit hNone) fun _ ↦ trivial
  | updateUser caller id dto =>
      refine .bind (admin caller) fun _ ↦ .bind (only_update hNone fun _ ↦ ?_) fun _ ↦ trivial
      simp [hS]
  | deleteUser caller id =>
      refine .bind (admin caller) fun _ ↦ .bind (only_delete hNone fun _ ↦ ?_) fun _ ↦ trivial
      simp [hS]
  | updateProfile caller displayName =>
      exact .bind (auth caller) fun _ ↦ .bind (only_updateProfile (by simp [hS])) fun _ ↦ trivial
  | bootstrapAdmin email password =>
      refine .bind (.bind (by simp [hS]) fun _ ↦ only_ite.mpr ⟨fun _ ↦ trivial, fun _ ↦ ?_⟩)
        fun _ ↦ trivial
      exact .bind (.attempt (only_createWithPassword hNone (by simp [hS]))) fun _ ↦ trivial
  | register email password =>
      refine .bind (.bind (only_createWithPassword hNone (by simp [hS])) fun user ↦ ?_)
        fun _ ↦ trivial
      exact .bind (.attempt (only_sendVerification (effects_subset (by simp) hS))) fun _ ↦ trivial
  | login email password => exact .bind (only_login hS) fun _ ↦ trivial
  | twoFactorSetup caller =>
      refine .bind (session caller) fun _ ↦ .bind ?_ fun _ ↦ trivial
      refine .bind (by simp [TotpService.requireActiveUser, hS]) fun _ ↦ ?_
      simp [hS]
  | twoFactorEnable caller code =>
      refine .bind (session caller) fun _ ↦ .bind ?_ fun _ ↦ trivial
      refine .bind (by simp [TotpService.requireActiveUser, hS]) fun _ ↦ ?_
      simp [hS]
  | twoFactorDisable caller password =>
      refine .bind (session caller) fun _ ↦ .bind ?_ fun _ ↦ trivial
      refine .bind (by simp [TotpService.requireActiveUser, hS]) fun _ ↦ ?_
      simp [hS]
  | twoFactorVerify pendingToken code => exact .bind (only_verifyLogin hS) fun _ ↦ trivial
  | forgotPassword email => exact .bind (only_forgot hS) fun _ ↦ trivial
  | resetPassword token newPassword =>
      refine .bind ?_ fun _ ↦ trivial
      refine .bind (by simp [OneTimeTokenService.redeem, hS]) fun _ ↦ ?_
      refine .bind (by simp [hS]) fun _ ↦ .bind (by simp) fun _ ↦ ?_
      refine .bind (only_setPassword (effects_subset (by simp) hS)) fun _ ↦ ?_
      simp [OneTimeTokenService.invalidate, hS]
  | changePassword caller current new =>
      refine .bind (session caller) fun _ ↦ .bind ?_ fun _ ↦ trivial
      refine .bind (by simp [EmailVerificationService.currentUser, hS]) fun _ ↦ ?_
      exact .bind (by simp) fun _ ↦ .bind (only_setPassword hS) fun _ ↦ by simp [hS]
  | inviteUser caller email displayName role =>
      refine .bind (admin caller) fun _ ↦ .bind ?_ fun _ ↦ trivial
      simp only [PasswordResetService.invite, only_generateToken_bind]
      refine ⟨by simp [hS], fun _ ↦ .bind (only_createWithPassword hNone (by simp [hS])) fun _ ↦ ?_⟩
      exact .bind (only_issue (effects_subset (by simp) hS)) fun _ ↦ by simp [hS]
  | verifyEmail token =>
      refine .bind ?_ fun _ ↦ trivial
      exact .bind (by simp [OneTimeTokenService.redeem, hS])
        fun _ ↦ by simp [hS]
  | resendVerification caller =>
      refine .bind (auth caller) fun _ ↦ .bind ?_ fun _ ↦ trivial
      refine .bind (by simp [EmailVerificationService.currentUser, hS]) fun _ ↦ ?_
      exact only_ite.mpr ⟨fun _ ↦ trivial, fun _ ↦ only_sendVerification hS⟩
  | requestEmailChange caller password newEmail =>
      refine .bind (session caller) fun _ ↦ .bind ?_ fun _ ↦ trivial
      refine .bind (by simp [EmailVerificationService.currentUser, hS]) fun _ ↦
        .bind (by simp) fun _ ↦ ?_
      refine .bind (by simp) fun _ ↦ .bind (by simp [UsersService.findByEmail, hS]) fun _ ↦ ?_
      exact .bind (by simp) fun _ ↦ .bind (only_issue (effects_subset (by simp) hS))
        fun _ ↦ by simp [hS]
  | confirmEmailChange token =>
      refine .bind ?_ fun _ ↦ trivial
      refine .bind (by simp [OneTimeTokenService.redeem, hS]) fun _ ↦ ?_
      refine .bind (by simp) fun _ ↦ .bind (.bind ?_ fun _ ↦ only_orThrow) fun _ ↦ ?_
      · simp [hS]
      · simp [OneTimeTokenService.invalidate, hS]
  | oauthLogin provider redirect => exact .bind (only_start hNone (by simp [hS])) fun _ ↦ trivial
  | oauthLink caller provider =>
      exact .bind (session caller) fun _ ↦ .bind (only_start hNone (by simp [hS])) fun _ ↦ trivial
  | oauthCallback provider query answer =>
      refine .bind (only_handleCallback (effects_subset (by simp) hS) ?_) fun _ ↦ trivial
      simp [hS]
  | oauthExchange code =>
      refine .bind ?_ fun _ ↦ trivial
      refine .bind (by simp [hS]) fun _ ↦ .bind (by simp) fun _ ↦ ?_
      exact .bind (by simp [hS]) fun _ ↦ .bind (by simp) fun _ ↦ only_issueJwt (by simp [hS])
  | oauthUnlink caller provider =>
      refine .bind (session caller) fun _ ↦ .bind ?_ fun _ ↦ trivial
      simp [OAuthService.unlink, hS]
  | passkeyRegisterBegin caller =>
      refine .bind (session caller) fun _ ↦ .bind ?_ fun _ ↦ trivial
      refine .bind (by simp [PasskeysService.activeUser, hS]) fun _ ↦
        .bind (by simp [hS]) fun _ ↦ ?_
      refine .bind (by simp) fun _ ↦ .bind (by simp [hS]) fun _ ↦ .bind (by simp) fun _ ↦ ?_
      exact only_storeChallenge hS
  | passkeyRegisterFinish caller challengeId credential name =>
      refine .bind (session caller) fun _ ↦ .bind ?_ fun _ ↦ trivial
      refine .bind (only_claimChallenge fun q hq ↦ hS q (by simp [hq])) fun _ ↦ ?_
      simp [hS]
  | passkeyLoginBegin =>
      refine .bind (.bind (by simp [hS]) fun _ ↦ .bind (by simp) fun _ ↦ ?_) fun _ ↦ trivial
      exact only_storeChallenge hS
  | passkeyLoginFinish challengeId credential => exact .bind (only_finishLogin hS) fun _ ↦ trivial
  | passkeyDelete caller id =>
      refine .bind (session caller) fun _ ↦ .bind ?_ fun _ ↦ trivial
      simp [PasskeysService.delete, hS]
  | qrCreate ip agent =>
      refine .bind ?_ fun _ ↦ trivial
      simp [QrLoginService.create, hS]
  | qrScan caller id => exact .bind (session caller) fun _ ↦ .bind (only_scan hS) fun _ ↦ trivial
  | qrApprove caller id code =>
      exact .bind (session caller) fun _ ↦ .bind (only_approve hS) fun _ ↦ trivial
  | qrReject caller id =>
      exact .bind (session caller) fun _ ↦ .bind (only_reject hS) fun _ ↦ trivial
  | qrPoll id secret => exact .bind (only_poll hS) fun _ ↦ trivial
  | cleanup => exact .bind (by simp [runCleanup, hS]) fun _ ↦ trivial

end Only

end ApiStarter
