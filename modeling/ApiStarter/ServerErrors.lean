import ApiStarter.Interleave.Failures
import ApiStarter.UniqueKeys

/-!
# No request fails by accident

A request may be refused for many reasons, and each has its own status.  An
internal error is answered only when the database fails a statement or a foreign
call fails: no interleaving makes two requests draw one key, count the sign-in methods
of an account that is gone, or meet an answer nobody thought of.
-/

namespace ApiStarter

open Interleave Interleave.Prog Relational

/-- `500 Internal Server Error` -/
def AppError.isServerError : AppError → Bool
  | .internal | .database => true
  | _ => false

/-- Hashing, drawing a QR code and the like do what they are asked for, and the state of a ceremony
that was stored decodes. -/
structure Context.ForeignCallsSucceed (cx : Context) : Prop where
  argon2 : ∀ salt password, cx.argon2 salt password ≠ none
  provisioningUri : ∀ secret email, cx.provisioningUri secret email ≠ none
  renderQr : ∀ payload, cx.renderQr payload ≠ none
  startRegistration : ∀ n u email name exclude, cx.startRegistration n u email name exclude ≠ none
  startAuthentication : ∀ n, cx.startAuthentication n ≠ none
  registrationState : ∀ n u email name exclude state,
    cx.startRegistration n u email name exclude = some state →
      cx.decodesState .registration state = true
  authenticationState : ∀ n state, cx.startAuthentication n = some state →
    cx.decodesState .authentication state = true

/-- The database answers, where it counts sign-in methods only if the request relies on it; and
what is found of a ceremony decodes. -/
def Statement.IsAnswered (cx : Context) (counts : Bool) : (q : Statement) → q.Res → Prop
  | .sql (.signInMethodCount _), r => counts = true → r ≠ none
  | .sql (.challenges (.claim _ kind _)), r =>
      r ≠ none ∧ ∀ json : String, r = some (some json) → cx.decodesState kind json = true
  | .sql _, r => r ≠ none
  | _, _ => True

/-- No error the program ends in is a server error. -/
def Harmless (cx : Context) (counts : Bool) {α : Type} (p : Req α) : Prop :=
  p.Raises (Statement.IsAnswered cx counts) fun e ↦ e.isServerError = false

section Errors

@[simp] theorem SecurityError.isServerError_into (e : SecurityError) :
    e.into.isServerError = false := by cases e <;> rfl
@[simp] theorem UsersError.isServerError_into (e : UsersError) :
    e.into.isServerError = false := by cases e <;> rfl
@[simp] theorem AuthError.isServerError_into (e : AuthError) :
    e.into.isServerError = false := by cases e <;> rfl
@[simp] theorem OAuthError.isServerError_into (e : OAuthError) :
    e.into.isServerError = false := by cases e <;> rfl
@[simp] theorem PasskeyError.isServerError_into (e : PasskeyError) :
    e.into.isServerError = false := by cases e <;> rfl
@[simp] theorem QrError.isServerError_into (e : QrError) :
    e.into.isServerError = false := by cases e <;> rfl

end Errors

section Programs

variable {counts : Bool} {α β : Type} {cx : Context}

theorem harmless_bind {p : Req α} {f : α → Req β} (hp : Harmless cx counts p)
    (hf : ∀ a, Harmless cx counts (f a)) : Harmless cx counts (p >>= f) := Raises.bind hp hf

@[simp] theorem harmless_map {p : Req α} {f : α → β} :
    Harmless cx counts (p >>= fun a ↦ ret (f a)) ↔ Harmless cx counts p := raises_map

theorem isAnswered_sql {q : Sql} (hq : counts = true ∨ ∀ id, q ≠ .signInMethodCount id)
    (r : Option q.Res) : (Statement.sql q).IsAnswered cx counts r → r ≠ none := by
  intro h
  cases q with
  | signInMethodCount id =>
      rcases hq with hcounts | hne
      · exact h hcounts
      · exact absurd rfl (hne id)
  | challenges q =>
      cases q with
      | claim id kind userId => exact h.1
      | _ => exact h
  | _ => exact h

@[simp] theorem harmless_ret (a : α) : Harmless cx counts (ret a) := trivial
@[simp] theorem harmless_fail {e : AppError} :
    Harmless cx counts (fail e : Req α) ↔ e.isServerError = false := Iff.rfl

@[simp] theorem harmless_sql {q : Sql} (hq : counts = true ∨ ∀ id, q ≠ .signInMethodCount id) :
    @Harmless cx counts (no_index q.Res) (sql q) := by
  intro r hr
  cases r with
  | none => exact absurd rfl (isAnswered_sql hq none hr)
  | some r => trivial

theorem isAnswered_some {q : Sql} (hclaim : ∀ id kind u, q ≠ .challenges (.claim id kind u))
    (r : q.Res) : (Statement.sql q).IsAnswered cx counts (some r) := by
  cases q with
  | challenges q =>
      cases q with
      | claim id kind u => exact absurd rfl (hclaim id kind u)
      | _ => simp [Statement.IsAnswered]
  | _ => simp [Statement.IsAnswered]

@[simp] theorem harmless_sql_bind {q : Sql} {f : q.Res → Req α}
    (hq : counts = true ∨ ∀ id, q ≠ .signInMethodCount id)
    (hclaim : ∀ id kind u, q ≠ .challenges (.claim id kind u)) :
    Harmless cx counts (@Bind.bind _ _ (no_index q.Res) _ (sql q) f) ↔
      ∀ r, Harmless cx counts (f r) :=
  ⟨fun h r ↦ h (some r) (isAnswered_some hclaim r), fun h ↦ harmless_bind (harmless_sql hq) h⟩

@[simp] theorem harmless_okOr {e : AppError} {o : Option α} :
    Harmless cx counts (okOr e o) ↔ (o = none → e.isServerError = false) := raises_okOr

@[simp] theorem harmless_okOr_bind {e : AppError} {o : Option α} {f : α → Req β} :
    Harmless cx counts (okOr e o >>= f) ↔
      (o = none → e.isServerError = false) ∧ ∀ a, o = some a → Harmless cx counts (f a) :=
  raises_okOr_bind

@[simp] theorem harmless_ensure {c : Prop} [Decidable c] {e : AppError} :
    Harmless cx counts (ensure c e) ↔ (¬c → e.isServerError = false) := raises_ensure

@[simp] theorem harmless_ensure_bind {c : Prop} [Decidable c] {e : AppError} {f : Unit → Req β} :
    Harmless cx counts (ensure c e >>= f) ↔
      (¬c → e.isServerError = false) ∧ (c → Harmless cx counts (f ())) := raises_ensure_bind

theorem harmless_ite {c : Prop} [Decidable c] {p p' : Req α} :
    Harmless cx counts (if c then p else p') ↔
      (c → Harmless cx counts p) ∧ (¬c → Harmless cx counts p') := raises_ite

@[simp] theorem harmless_clock : Harmless cx counts (clock : Req Time) := fun _ _ ↦ trivial

@[simp] theorem harmless_clock_bind {f : Time → Req β} :
    Harmless cx counts (clock >>= f) ↔ ∀ t, Harmless cx counts (f t) :=
  ⟨fun h t ↦ h t trivial, fun h t _ ↦ h t⟩

@[simp] theorem harmless_draw {f : ℕ → Req β} :
    Harmless cx counts (stmt Statement.draw f) ↔ ∀ n, Harmless cx counts (f n) :=
  ⟨fun h n ↦ h n trivial, fun h n _ ↦ h n⟩

@[simp] theorem harmless_verifyCode {secret email code : String} {f : Bool → Req β} :
    Harmless cx counts (stmt (Statement.verifyCode secret email code) f) ↔
      ∀ b, Harmless cx counts (f b) :=
  ⟨fun h b ↦ h b trivial, fun h b _ ↦ h b⟩

@[simp] theorem harmless_send {m : Mail} : Harmless cx counts (send m) := fun _ _ ↦ trivial

@[simp] theorem harmless_send_bind {m : Mail} {f : Unit → Req β} :
    Harmless cx counts (send m >>= f) ↔ Harmless cx counts (f ()) :=
  ⟨fun h ↦ h () trivial, fun h _ _ ↦ h⟩

@[simp] theorem harmless_generateToken_bind {f : GeneratedToken → Req β} :
    Harmless cx counts (generateToken cx >>= f) ↔
      ∀ n, Harmless cx counts (f ⟨cx.randomToken n, cx.sha256 (cx.randomToken n)⟩) :=
  ⟨fun h n ↦ h n trivial, fun h n _ ↦ h n⟩

@[simp] theorem harmless_orThrow {r : Except UsersError α} : Harmless cx counts (orThrow r) := by
  cases r with
  | ok a => trivial
  | error e => exact e.isServerError_into

@[simp] theorem harmless_attempt {ε : Type} {p : Prog Statement.Res ε α} :
    Harmless cx counts (attempt p) := raises_attempt p

@[simp] theorem harmless_attempt_bind {ε : Type} {p : Prog Statement.Res ε α}
    {f : Except ε α → Req β} (hf : ∀ r, Harmless cx counts (f r)) :
    Harmless cx counts (attempt p >>= f) := harmless_bind harmless_attempt hf

@[simp] theorem harmless_issueJwt {u : User} : Harmless cx counts (issueJwt cx u) := by
  simp [issueJwt]

end Programs

/-! ## The use cases -/

section UseCases

variable {cx : Context} {counts : Bool}

theorem harmless_authUser (caller : Presented) (isSafe : Bool) :
    Harmless cx counts (authUser cx caller isSafe) := by
  cases caller with
  | bearer claims => simp [authUser, verifySession]
  | apiKey raw => simp [authUser, authenticateApiKey, Prog.bind_assoc]

theorem harmless_sessionUser (caller : Presented) (isSafe : Bool) :
    Harmless cx counts (sessionUser cx caller isSafe) :=
  harmless_bind (harmless_authUser caller isSafe) fun _ ↦ by simp

theorem harmless_adminUser (caller : Presented) (isSafe : Bool) :
    Harmless cx counts (adminUser cx caller isSafe) :=
  harmless_bind (harmless_authUser caller isSafe) fun _ ↦ by simp

@[simp] theorem harmless_recordAudit {a : Uuid} {action : String} {u : Option Uuid}
    {d : AuditDetails} : Harmless cx counts (recordAudit a action u d) := by
  simp [recordAudit]

theorem harmless_rejectPasswordIfPolicyViolation {password email : String} {name : Option String} :
    Harmless cx counts (UsersService.rejectPasswordIfPolicyViolation cx password email name) := by
  unfold UsersService.rejectPasswordIfPolicyViolation
  split <;> simp

section Foreign

variable (hcx : cx.ForeignCallsSucceed)
include hcx

theorem harmless_hashBlocking {password : String} :
    Harmless cx counts (hashBlocking cx password) := by
  simp [hashBlocking, hcx.argon2]

theorem harmless_createWithPassword {email password : String} {name : Option String}
    {role : Role} {verified : Bool} :
    Harmless cx counts (UsersService.createWithPassword cx email password name role verified) := by
  apply harmless_bind harmless_rejectPasswordIfPolicyViolation
  intro _
  apply harmless_bind (harmless_hashBlocking hcx)
  intro hash
  simp [UsersService.insertUser]

theorem harmless_setPassword {id : Uuid} {password : String} :
    Harmless cx counts (UsersService.setPassword cx id password) := by
  apply harmless_bind (by simp [UsersService.require])
  intro account
  apply harmless_bind harmless_rejectPasswordIfPolicyViolation
  intro _
  exact harmless_bind (harmless_hashBlocking hcx) fun _ ↦ by simp

end Foreign

@[simp] theorem harmless_issue {u : Uuid} {purpose : TokenPurpose} {ttl : Time}
    {newEmail : Option String} :
    Harmless cx counts (OneTimeTokenService.issue cx u purpose ttl newEmail) := by
  simp [OneTimeTokenService.issue]

theorem harmless_update {actor : AuthUser} {id : Uuid} {dto : UpdateUserDto} :
    Harmless cx counts (UsersService.update actor id dto) := by
  simp only [UsersService.update, Policy.checkAdminUpdate, harmless_ensure_bind,
    UsersError.isServerError_into, implies_true, true_and]
  intro _
  apply harmless_bind (by simp [UsersService.require])
  intro before
  apply harmless_bind (by simp)
  intro result
  apply harmless_bind harmless_orThrow
  intro found
  refine harmless_okOr_bind.mpr ⟨by simp, fun updated _ ↦ ?_⟩
  apply harmless_bind
  · unfold UsersService.auditRole
    repeat' split
    all_goals simp
  intro _
  apply harmless_bind
  · unfold UsersService.auditActive
    repeat' split
    all_goals simp
  intro _
  trivial

theorem harmless_login {email password : String} :
    Harmless cx counts (SessionService.login cx email password) := by
  apply harmless_bind (by simp [UsersService.findByEmail])
  intro found
  refine harmless_okOr_bind.mpr ⟨by simp, fun user _ ↦ harmless_bind ?_ fun locked ↦ ?_⟩
  · unfold SessionService.isLocked
    split <;> simp
  · simp [harmless_ite, SessionService.signIn, SessionService.wrongPassword]

theorem harmless_checkCode {user : User} {secret code : String} :
    Harmless cx counts (TotpService.checkCode cx user secret code) := by
  simp [TotpService.checkCode, harmless_ite]

theorem harmless_forgot {email : String} :
    Harmless cx counts (PasswordResetService.forgot cx email) := by
  apply harmless_bind (by simp [UsersService.findByEmail])
  intro found
  cases found with
  | none => trivial
  | some user =>
      refine harmless_ite.mpr ⟨fun _ ↦ ?_, fun _ ↦ trivial⟩
      apply harmless_bind (by simp [OneTimeTokenService.issuedWithin])
      intro recent
      refine harmless_ite.mpr ⟨fun _ ↦ trivial, fun _ ↦ ?_⟩
      exact harmless_bind harmless_issue fun raw ↦ by simp

theorem harmless_storeChallenge {kind : ChallengeKind} {u : Option Uuid} {state : String} :
    Harmless cx counts (PasskeysService.storeChallenge cx kind u state) := by
  simp [PasskeysService.storeChallenge]

theorem harmless_claimChallenge {id : String} {kind : ChallengeKind} {u : Option Uuid}
    {failed : AppError} (hfailed : failed.isServerError = false) :
    Harmless cx counts (PasskeysService.claimChallenge cx id kind u failed) := by
  rintro claimed ⟨hsome, hdecodes⟩
  cases claimed with
  | none => exact absurd rfl hsome
  | some found =>
      refine harmless_okOr_bind.mpr ⟨fun _ ↦ hfailed, fun json hjson ↦ ?_⟩
      refine harmless_ensure_bind.mpr ⟨fun hnot ↦ ?_, fun _ ↦ trivial⟩
      exact absurd (hdecodes json (congrArg some hjson)) hnot

theorem harmless_updateCounters (result : AuthenticationResult)
    (passkeys : List (PasskeyRow × Passkey)) :
    Harmless cx counts (PasskeysService.updateCounters cx result passkeys) := by
  induction passkeys with
  | nil => trivial
  | cons entry rest ih =>
      apply harmless_bind ?_ fun _ ↦ ih
      unfold PasskeysService.updateCounter
      split <;> simp

@[simp] theorem harmless_findLive {id : String} :
    Harmless cx counts (QrLoginService.findLive id) := by
  apply harmless_bind (by simp [QrLoginService.find])
  intro session
  simp

theorem harmless_scan {actor : AuthUser} {id : String} :
    Harmless cx counts (QrLoginService.scan actor id) := by
  apply harmless_bind harmless_findLive
  intro session
  refine harmless_map.mpr ?_
  unfold QrLoginService.claimScan
  split
  · apply harmless_bind (by simp)
    intro marked
    refine harmless_ite.mpr ⟨fun _ ↦ trivial, fun _ ↦ ?_⟩
    exact harmless_bind harmless_findLive fun _ ↦ by simp
  all_goals simp

theorem harmless_approve {actor : AuthUser} {id code : String} :
    Harmless cx counts (QrLoginService.approve actor id code) := by
  apply harmless_bind harmless_findLive
  intro session
  apply harmless_bind (by simp [QrLoginService.requireScannedBy])
  intro _
  simp [harmless_ite, QrLoginService.wrongCode]

theorem harmless_poll {id : String} {secret : Option String} :
    Harmless cx counts (QrLoginService.poll cx id secret) := by
  apply harmless_bind (by simp [QrLoginService.find])
  intro session
  refine harmless_ensure_bind.mpr ⟨by simp, fun _ ↦ ?_⟩
  split
  · trivial
  · trivial
  · refine harmless_clock_bind.mpr fun now ↦ harmless_ite.mpr ⟨fun _ ↦ trivial, fun _ ↦ ?_⟩
    refine harmless_ite.mpr ⟨fun _ ↦ harmless_bind (by simp) fun consumed ↦ ?_, fun _ ↦ trivial⟩
    cases consumed with
    | none => trivial
    | some u => simp

theorem harmless_cleanup : Harmless cx counts runCleanup := by
  simp [runCleanup]

end UseCases

/-! ## All requests -/

/-- The requests that count the ways to sign in to an account. -/
def Request.counts : Request → Bool
  | .oauthUnlink .. | .passkeyDelete .. => true
  | _ => false

theorem harmless_handle {cx : Context} (hcx : cx.ForeignCallsSucceed) (k : Request) :
    Harmless cx k.counts (handle cx k) := by
  have admin (caller : Presented) : Harmless cx k.counts (adminUser cx caller false) :=
    harmless_adminUser caller false
  have session (caller : Presented) : Harmless cx k.counts (sessionUser cx caller false) :=
    harmless_sessionUser caller false
  have auth (caller : Presented) : Harmless cx k.counts (authUser cx caller false) :=
    harmless_authUser caller false
  cases k with
  | createUser caller email password displayName role =>
      apply harmless_bind (admin caller)
      intro actor
      refine harmless_map.mpr ?_
      exact harmless_bind (harmless_createWithPassword hcx) fun _ ↦ by simp
  | updateUser caller id dto =>
      exact harmless_bind (admin caller) fun _ ↦ harmless_map.mpr harmless_update
  | deleteUser caller id =>
      apply harmless_bind (admin caller)
      intro actor
      refine harmless_map.mpr ?_
      simp only [UsersService.delete, Policy.checkDelete, harmless_ensure_bind,
        UsersError.isServerError_into, implies_true, true_and]
      intro _
      apply harmless_bind (by simp [UsersService.require])
      intro target
      apply harmless_bind (by simp)
      intro result
      exact harmless_bind harmless_orThrow fun _ ↦ by simp
  | updateProfile caller displayName =>
      apply harmless_bind (auth caller)
      intro actor
      refine harmless_map.mpr (harmless_bind (by simp) fun _ ↦ ?_)
      exact harmless_bind harmless_orThrow fun _ ↦ by simp
  | bootstrapAdmin email password =>
      refine harmless_map.mpr (harmless_bind (by simp) fun admins ↦ ?_)
      exact harmless_ite.mpr ⟨fun _ ↦ trivial, fun _ ↦ by simp⟩
  | register email password =>
      refine harmless_map.mpr (harmless_bind (harmless_createWithPassword hcx) fun user ↦ ?_)
      exact harmless_bind harmless_attempt fun _ ↦ trivial
  | login email password => exact harmless_map.mpr harmless_login
  | twoFactorSetup caller =>
      apply harmless_bind (session caller)
      simp [TotpService.beginSetup, TotpService.requireActiveUser, Prog.bind_assoc,
        hcx.provisioningUri]
  | twoFactorEnable caller code =>
      apply harmless_bind (session caller)
      simp [TotpService.confirmSetup, TotpService.requireActiveUser,
        TotpRecoveryCodeRepository.replaceAll, Prog.bind_assoc]
  | twoFactorDisable caller password =>
      apply harmless_bind (session caller)
      simp [TotpService.disable, TotpService.requireActiveUser, Prog.bind_assoc]
  | twoFactorVerify pendingToken code =>
      refine harmless_map.mpr (harmless_bind (by simp [OneTimeTokenService.peek]) fun claim ↦ ?_)
      apply harmless_bind (by simp)
      intro found
      refine harmless_okOr_bind.mpr ⟨by simp, fun user _ ↦ ?_⟩
      refine harmless_okOr_bind.mpr ⟨by simp, fun secret _ ↦ ?_⟩
      apply harmless_bind harmless_checkCode
      intro valid
      refine harmless_ensure_bind.mpr ⟨by simp, fun _ ↦ ?_⟩
      exact harmless_bind (by simp [OneTimeTokenService.redeem]) fun _ ↦ harmless_issueJwt
  | forgotPassword email => exact harmless_map.mpr harmless_forgot
  | resetPassword token newPassword =>
      refine harmless_map.mpr (harmless_bind (by simp [OneTimeTokenService.redeem]) fun t ↦ ?_)
      apply harmless_bind (by simp)
      intro found
      refine harmless_okOr_bind.mpr ⟨by simp, fun user _ ↦ ?_⟩
      apply harmless_bind (harmless_setPassword hcx)
      intro _
      simp [OneTimeTokenService.invalidate]
  | changePassword caller current new =>
      apply harmless_bind (session caller)
      intro actor
      refine harmless_map.mpr (harmless_bind ?_ fun user ↦ ?_)
      · simp [EmailVerificationService.currentUser]
      refine harmless_ensure_bind.mpr ⟨by simp, fun _ ↦ ?_⟩
      exact harmless_bind (harmless_setPassword hcx) fun _ ↦ by simp
  | inviteUser caller email displayName role =>
      apply harmless_bind (admin caller)
      intro actor
      refine harmless_map.mpr (harmless_generateToken_bind.mpr fun n ↦ ?_)
      apply harmless_bind (harmless_createWithPassword hcx)
      intro user
      exact harmless_bind harmless_issue fun _ ↦ by simp
  | verifyEmail token =>
      refine harmless_map.mpr ?_
      simp [EmailVerificationService.verify, OneTimeTokenService.redeem, Prog.bind_assoc]
  | resendVerification caller =>
      apply harmless_bind (auth caller)
      intro actor
      refine harmless_map.mpr (harmless_bind ?_ fun user ↦ ?_)
      · simp [EmailVerificationService.currentUser]
      refine harmless_ite.mpr ⟨fun _ ↦ trivial, fun _ ↦ ?_⟩
      exact harmless_bind harmless_issue fun _ ↦ by simp
  | requestEmailChange caller current newEmail =>
      apply harmless_bind (session caller)
      intro actor
      refine harmless_map.mpr (harmless_bind ?_ fun user ↦ ?_)
      · simp [EmailVerificationService.currentUser]
      refine harmless_ensure_bind.mpr ⟨by simp, fun _ ↦ ?_⟩
      refine harmless_ensure_bind.mpr ⟨by simp, fun _ ↦ ?_⟩
      apply harmless_bind (by simp [UsersService.findByEmail])
      intro taken
      refine harmless_ensure_bind.mpr ⟨by simp, fun _ ↦ ?_⟩
      exact harmless_bind harmless_issue fun _ ↦ by simp
  | confirmEmailChange token =>
      refine harmless_map.mpr (harmless_bind (by simp [OneTimeTokenService.redeem]) fun t ↦ ?_)
      refine harmless_okOr_bind.mpr ⟨by simp, fun newEmail _ ↦ ?_⟩
      apply harmless_bind (harmless_bind (by simp) fun _ ↦ harmless_orThrow)
      intro _
      simp [OneTimeTokenService.invalidate]
  | oauthLogin provider redirect =>
      refine harmless_map.mpr ?_
      simp [OAuthService.loginUrl, OAuthService.start, OAuthService.insertState, Prog.bind_assoc]
  | oauthLink caller provider =>
      apply harmless_bind (session caller)
      simp [OAuthService.linkUrl, OAuthService.start, OAuthService.insertState, Prog.bind_assoc]
  | oauthCallback provider query answer =>
      refine harmless_map.mpr (harmless_bind harmless_attempt fun outcome ↦ ?_)
      cases outcome <;> trivial
  | oauthExchange code =>
      refine harmless_map.mpr ?_
      simp [OAuthService.exchange]
  | oauthUnlink caller provider =>
      apply harmless_bind (session caller)
      simp [OAuthService.unlink, Request.counts, Prog.bind_assoc]
  | passkeyRegisterBegin caller =>
      apply harmless_bind (session caller)
      simp [PasskeysService.beginRegistration, PasskeysService.activeUser, Prog.bind_assoc,
        hcx.startRegistration, harmless_storeChallenge]
  | passkeyRegisterFinish caller challengeId credential name =>
      apply harmless_bind (session caller)
      intro actor
      refine harmless_map.mpr (harmless_bind (harmless_claimChallenge (by simp)) fun state ↦ ?_)
      simp
  | passkeyLoginBegin =>
      refine harmless_map.mpr ?_
      simp [PasskeysService.beginLogin, hcx.startAuthentication, harmless_storeChallenge]
  | passkeyLoginFinish challengeId credential =>
      refine harmless_map.mpr (harmless_bind (harmless_claimChallenge (by simp)) fun state ↦ ?_)
      refine harmless_okOr_bind.mpr ⟨by simp, fun u _ ↦ harmless_bind (by simp) fun found ↦ ?_⟩
      refine harmless_okOr_bind.mpr ⟨by simp, fun user _ ↦ harmless_bind (by simp) fun rows ↦ ?_⟩
      refine harmless_okOr_bind.mpr ⟨by simp, fun result _ ↦ ?_⟩
      exact harmless_bind (harmless_updateCounters result _) fun _ ↦ by simp
  | passkeyDelete caller id =>
      apply harmless_bind (session caller)
      simp [PasskeysService.delete, Request.counts, Prog.bind_assoc]
  | qrCreate ip agent =>
      refine harmless_map.mpr ?_
      simp [QrLoginService.create, hcx.renderQr]
  | qrScan caller id =>
      exact harmless_bind (session caller) fun _ ↦ harmless_map.mpr harmless_scan
  | qrApprove caller id code =>
      exact harmless_bind (session caller) fun _ ↦ harmless_map.mpr harmless_approve
  | qrReject caller id =>
      apply harmless_bind (session caller)
      intro actor
      refine harmless_map.mpr (harmless_bind harmless_findLive fun session ↦ ?_)
      simp [QrLoginService.requireScannedBy]
  | qrPoll id secret => exact harmless_map.mpr harmless_poll
  | cleanup => exact harmless_map.mpr harmless_cleanup

/-! ## The statements are answered -/

/-- An unlinking request counts the sign-in methods of an account that it has met. -/
def CountsKnown (cx : Context) : AppEvent → List AppEvent → Prop
  | .ran _ k (.sql (.signInMethodCount id)) _, own => k.counts = true → Known cx id own
  | _, _ => True

section Counts

variable {cx : Context} {i : ℕ} {k : Request} {own : List AppEvent}

theorem countsKnown_of_ne {q : Statement} (hq : ∀ id, q ≠ .sql (.signInMethodCount id))
    (s : Server) : CountsKnown cx (.ran i k q s) own := by
  unfold CountsKnown
  split
  next heq =>
    cases heq
    exact absurd rfl (hq _)
  next => trivial

theorem traced_countsKnown_of_only {α : Type} {p : Req α} {Q : α → List AppEvent → Prop}
    (hp : p.Only fun q ↦ ∀ id, q ≠ .sql (.signInMethodCount id))
    (hQ : ∀ a own', own ⊆ own' → Q a own') :
    Traced (machine cx) (CountsKnown cx) i k p Q (fun _ _ ↦ True) own :=
  traced_of_quiet hp (returns_true _) (fun _ hq s _ ↦ countsKnown_of_ne hq s)
    (fun a own' _ ↦ hQ a own') fun _ _ _ ↦ trivial

theorem only_sessionUser_noCount (caller : Presented) :
    (sessionUser cx caller false).Only fun q ↦ ∀ id, q ≠ .sql (.signInMethodCount id) := by
  cases caller with
  | bearer claims => simp [sessionUser, authUser, verifySession, Prog.bind_assoc]
  | apiKey raw => simp [sessionUser, authUser, authenticateApiKey, Prog.bind_assoc]

theorem traced_sessionUser_known {caller : Presented} (hk : k.caller? = some caller)
    {Q : AuthUser → List AppEvent → Prop}
    (hQ : ∀ actor own', Known cx actor.id own' → Q actor own') :
    Traced (machine cx) (CountsKnown cx) i k (sessionUser cx caller false) Q
      (fun _ _ ↦ True) own :=
  (traced_sessionUser_warranted hk fun actor own' _ h ↦ hQ actor own' h.known).of_only
    (only_sessionUser_noCount caller) fun _ hq s _ ↦ countsKnown_of_ne hq s

/-- The check that removing something leaves a way to sign in. -/
theorem traced_countsOwn {u : Uuid} (hknown : Known cx u own) {c : Prop} [Decidable c]
    {e : AppError} {f : ℕ → Req Unit}
    (hf : ∀ n, (f n).Only fun q ↦ ∀ id, q ≠ .sql (.signInMethodCount id)) :
    Traced (machine cx) (CountsKnown cx) i k
      (do ensure c e; let count ← sql (.signInMethodCount u); f count)
      (fun _ _ ↦ True) (fun _ _ ↦ True) own := by
  refine traced_bind.mpr ((traced_ensure ..).mpr ⟨fun _ ↦ ?_, fun _ ↦ trivial⟩)
  apply traced_bind.mpr
  refine traced_sql (fun _ _ ↦ hknown) (fun s count _ ↦ ?_) (fun _ _ ↦ trivial) trivial
  exact traced_countsKnown_of_only (hf count) fun _ _ _ ↦ trivial

theorem countsKnown_handle (k : Request) :
    Traced (machine cx) (CountsKnown cx) i k (handle cx k) (fun _ _ ↦ True) (fun _ _ ↦ True)
      [] := by
  cases k with
  | oauthUnlink caller provider =>
      apply traced_bind.mpr
      apply traced_sessionUser_known rfl
      intro actor own hknown
      apply traced_bind.mpr
      apply traced_bind.mpr
      apply traced_countsKnown_of_only (by simp)
      intro identities own₁ h₁
      exact (traced_countsOwn (hknown.mono h₁) (by simp)).mono (fun _ _ _ ↦ trivial)
        fun _ _ _ ↦ trivial
  | passkeyDelete caller id =>
      apply traced_bind.mpr
      apply traced_sessionUser_known rfl
      intro actor own hknown
      apply traced_bind.mpr
      apply traced_bind.mpr
      apply traced_countsKnown_of_only (by simp)
      intro passkeys own₁ h₁
      exact (traced_countsOwn (hknown.mono h₁) (by simp)).mono (fun _ _ _ ↦ trivial)
        fun _ _ _ ↦ trivial
  | _ =>
      refine (traced_of_only (A := fun _ ↦ True) (only_true _) (returns_true _)
        (fun q _ s own _ ↦ ⟨?_, trivial⟩) trivial).mono (fun _ _ _ ↦ trivial) fun _ _ _ ↦ trivial
      unfold CountsKnown
      split
      next heq =>
        cases heq
        rintro ⟨⟩
      next => trivial

theorem traces_countsKnown (cx : Context) (k : Request) :
    Traces (machine cx) (CountsKnown cx) k (handle cx) := fun _ ↦
  (countsKnown_handle k).mono (fun _ _ _ _ ↦ trivial) fun _ _ _ _ ↦ trivial

end Counts

/-! ## The ceremonies that are stored -/

/-- The stored states of ceremonies decode. -/
def Server.Decodes (cx : Context) (s : Server) : Prop :=
  ∀ challenge ∈ s.db.challenges, cx.decodesState challenge.kind challenge.stateJson = true

/-- What is stored of a ceremony decodes. -/
def Statement.StoresDecoding (cx : Context) : Statement → Prop
  | .sql (.challenges (.insert row)) => cx.decodesState row.kind row.stateJson = true
  | _ => True

section Ceremonies

variable {cx : Context}

theorem storesDecoding_of_effect {q : Statement} (hq : q.effect ≠ .insertChallenge) :
    q.StoresDecoding cx := by
  unfold Statement.StoresDecoding
  split
  next => exact absurd rfl hq
  next => trivial

theorem only_storeChallenge_decoding {kind : ChallengeKind} {u : Option Uuid} {state : String}
    (hstate : cx.decodesState kind state = true) :
    (PasskeysService.storeChallenge cx kind u state).Only (Statement.StoresDecoding cx) := by
  simp [PasskeysService.storeChallenge, Statement.StoresDecoding, hstate]

/-- A request stores what begins a ceremony. -/
theorem handle_storesDecoding (hcx : cx.ForeignCallsSucceed) (k : Request) :
    (handle cx k).Only (Statement.StoresDecoding cx) := by
  have hquiet (q : Statement) (hq : q.effect = .none) : q.StoresDecoding cx :=
    storesDecoding_of_effect (by simp [hq])
  by_cases hk : Effect.insertChallenge ∈ k.effects
  · cases k with
    | passkeyRegisterBegin caller =>
        refine .bind (only_sessionUser hquiet caller false) fun actor ↦ .bind ?_ fun _ ↦ trivial
        refine .bind (by simp [PasskeysService.activeUser, hquiet]) fun _ ↦
          .bind (by simp [hquiet]) fun _ ↦ ?_
        refine .bind (by simp) fun _ ↦ .bind (by simp [hquiet]) fun _ ↦ ?_
        refine only_okOr_bind.mpr fun state hstate ↦ ?_
        exact only_storeChallenge_decoding (hcx.registrationState _ _ _ _ _ _ hstate)
    | passkeyLoginBegin =>
        refine .bind (.bind (by simp [hquiet]) fun _ ↦ ?_) fun _ ↦ trivial
        refine only_okOr_bind.mpr fun state hstate ↦ ?_
        exact only_storeChallenge_decoding (hcx.authenticationState _ _ hstate)
    | _ => simp at hk
  · apply handle_only
    rintro q hq
    apply storesDecoding_of_effect
    rintro heq
    rcases List.mem_cons.mp hq with hnone | hmem
    · rw [hnone] at heq
      cases heq
    · exact hk (heq ▸ hmem)

theorem decodes_exec {s : Server} {q : Statement} (hq : q.StoresDecoding cx)
    (h : s.Decodes cx) : ((machine cx).exec q s).2.Decodes cx := by
  cases q with
  | sql q =>
      cases q with
      | challenges q =>
          intro row hrow
          rcases ChallengeSql.get?_run (Table.get?_of_mem hrow) with hold | rfl
          · exact h row (Table.mem_of_get? hold)
          · exact hq
      | _ => exact h
  | _ => exact h

end Ceremonies

/-! ## All runs -/

section Runs

variable {cx : Context} {s : Server} {c : AppConfig}

theorem Reached.decodes (hcx : cx.ForeignCallsSucceed) (hc : Reached cx s c)
    (hs : s.Decodes cx) : c.world.store.Decodes cx := by
  have hran := hc.ran_only fun k _ ↦ handle_storesDecoding hcx k
  refine hc.live_of_start (Server.Decodes cx) (fun _ _ ↦ Iff.rfl) hs fun x hx hlive hend ↦ ?_
  cases x with
  | answered => exact hend
  | ran i k q b => exact hend (decodes_exec (hran i k q b hx).2 hlive)

/-- Of the queue of jobs the cleanup only prunes. -/
theorem Reached.prunes (hc : Reached cx s c) {i : ℕ} {k : Request} {q : JobSql} {b : Server}
    (hmem : .ran i k (.sql (.jobs q)) b ∈ c.world.history) (hk : k = .cleanup) :
    ∃ status cutoff, q = .prune status cutoff := by
  let S : Request → Statement → Prop := fun k q ↦ k = .cleanup → ∀ q', q = .sql (.jobs q') →
    ∃ status cutoff, q' = .prune status cutoff
  have hran := hc.ran_only (S := S) fun k _ ↦ by
    cases k with
    | cleanup => simp [S, handle, runCleanup, Prog.bind_assoc]
    | _ => exact (only_true _).mono fun _ _ ↦ by rintro ⟨⟩
  exact (hran i k _ b hmem).2 hk q rfl

/-- The statement that a request relies on is not refused. -/
theorem Reached.count_of_refused (hc : Reached cx s c) (hs : s.db.Consistent)
    (hfresh : cx.FreshKeys s c.world.store.draws) {i : ℕ} {k : Request} {q : Sql} {b : Server}
    (hmem : .ran i k (.sql q) b ∈ c.world.history) (h : (q.run b.now b.db).1 = none) :
    k.counts = false ∧ ∃ id, q = .signInMethodCount id := by
  obtain ⟨later, earlier, hhist⟩ := List.append_of_mem hmem
  obtain ⟨d, hd, hworld⟩ := hc.past hhist
  have hstore : d.world.store = b := by rw [hworld, Event.store_ran]
  rcases Sql.inUse_of_refused h with ⟨key, hinserts, huse⟩ | ⟨q, rfl⟩ | ⟨id, rfl, hmissing⟩ |
    ⟨id, rfl, row, hrow, hstatus, hunowned⟩
  · exact absurd huse (hc.key_free hfresh hhist hinserts)
  · obtain ⟨status, cutoff, rfl⟩ := hc.prunes hmem (hc.warranted hhist)
    cases h
  · refine ⟨Bool.eq_false_iff.mpr fun hcounts ↦ ?_, id, rfl⟩
    have hown : CountsKnown cx (.ran i k (.sql (.signInMethodCount id)) b) (ownEvents i earlier) :=
      Along.of_append (P := AlongOwn (CountsKnown cx))
        (hhist ▸ hc.traces fun k _ ↦ traces_countsKnown cx k)
    have hearlier : d.world.history = earlier := by rw [hworld]
    obtain ⟨account, haccount⟩ := Reached.hasUser_of_known hd (hearlier.symm ▸ hown hcounts)
    rw [hstore, hmissing] at haccount
    cases haccount
  · have hconsistent := (Reached.consistent_and_found hd hs).1
    rw [hstore] at hconsistent
    exact absurd hunowned (hconsistent.scanned row hrow hstatus)

/-- In every run each statement is answered as the request that runs it relies on. -/
theorem Reached.answered (hcx : cx.ForeignCallsSucceed) (hc : Reached cx s c)
    (hs : s.db.Consistent) (hdecodes : s.Decodes cx)
    (hfresh : cx.FreshKeys s c.world.store.draws) {i : ℕ} {k : Request} {q : Statement}
    {b : Server} (hmem : .ran i k q b ∈ c.world.history) :
    q.IsAnswered cx k.counts ((machine cx).exec q b).1 := by
  cases q with
  | sql q =>
      have hrefused := Reached.count_of_refused hc hs hfresh hmem
      cases q with
      | signInMethodCount id =>
          intro hcounts hnone
          simp [hcounts] at hrefused
          exact hrefused hnone
      | challenges q =>
          have hsome : ((Sql.challenges q).run b.now b.db).1 ≠ none := by
            intro hnone
            obtain ⟨-, id, ⟨⟩⟩ := hrefused hnone
          cases q with
          | claim id kind u =>
              refine ⟨hsome, fun json hclaimed ↦ ?_⟩
              obtain ⟨challenge, hget, rfl, rfl, -⟩ := ChallengeSql.claim_eq_some hclaimed
              obtain ⟨later, earlier, hhist⟩ := List.append_of_mem hmem
              obtain ⟨d, hd, hworld⟩ := hc.past hhist
              have hstored := Reached.decodes hcx hd hdecodes
              rw [hworld] at hstored
              exact hstored challenge (Table.mem_of_get? hget)
          | _ => exact hsome
      | _ =>
          intro hnone
          obtain ⟨-, id, ⟨⟩⟩ := hrefused hnone
  | _ => trivial

/-- On a database that executes every statement it is sent, whatever requests are in flight, no
request is answered with an internal error. -/
theorem no_server_errors (hcx : cx.ForeignCallsSucceed)
    (hc : Reachable (machine cx).reliable (handle cx) (fun _ ↦ True) s c)
    (hs : s.db.Consistent) (hdecodes : s.Decodes cx)
    (hfresh : cx.FreshKeys s c.world.store.draws) {i : ℕ} {k : Request} {e : AppError}
    {b : Server} (h : .answered i k (.error e) b ∈ c.world.history) :
    e.isServerError = false := by
  have hhandle : ∀ k : Request, True → (handle cx k).Raises (Statement.IsAnswered cx k.counts)
      fun e ↦ e.isServerError = false := fun k _ ↦ harmless_handle hcx k
  refine hc.raised hhandle (fun i k q b hmem ↦ ?_) i k e b h
  exact Reached.answered hcx hc.of_reliable hs hdecodes hfresh hmem

end Runs

def answersError : AppEvent → Bool
  | .answered _ _ (.error _) _ => true
  | _ => false

/-- Ada asks for a link, then somebody tries a wrong password and is told so. -/
theorem no_server_errors_refused :
    ∃ c, Reachable (machine .sample).reliable (handle .sample) (fun _ ↦ True) QrSample.start c ∧
      ∃ i k e b, .answered i k (.error e) b ∈ c.world.history ∧ e.isServerError = false := by
  let test : AppConfig → Bool := fun c ↦
    c.world.history.any answersError && decide (c.world.store.draws = 1)
  obtain ⟨c, hc, htest⟩ : ∃ c, Reachable (machine .sample).reliable (handle .sample)
      (fun _ ↦ True) QrSample.start c ∧ test c = true :=
    Reachable.of_schedule (Sample.alone 0 (.forgotPassword "ada@example.com") 8 ++
      Sample.alone 1 (.login "ada@example.com" "guess") 2) test (by decide) (by decide)
  obtain ⟨hany, hdraws⟩ := Bool.and_eq_true_iff.mp htest
  obtain ⟨e, he, herror⟩ := List.any_eq_true.mp hany
  have hcx : Context.sample.ForeignCallsSucceed := by constructor <;> simp [Context.sample]
  have hstart : QrSample.start.db.Consistent := by constructor <;> rintro row ⟨⟩
  have hdecodes : QrSample.start.Decodes .sample := by rintro row ⟨⟩
  have hfresh : Context.sample.FreshKeys QrSample.start c.world.store.draws := by
    rw [of_decide_eq_true hdraws]
    refine ⟨fun _ m n _ _ _ _ ↦ by omega, fun key huse ↦ ?_⟩
    cases key with
    | passkey id => exact absurd rfl huse
    | secret v => cases v <;> first | exact absurd rfl huse | exact huse.elim
  unfold answersError at herror
  split at herror
  next i k error b =>
    exact ⟨c, hc, i, k, error, b, he, no_server_errors hcx hc hstart hdecodes hfresh he⟩
  next => cases herror

end ApiStarter
