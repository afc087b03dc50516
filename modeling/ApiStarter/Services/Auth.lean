import ApiStarter.Services.Users

/-!
# Sign-in, tokens and two-factor

The use cases of `modules/auth/services`.
-/

namespace ApiStarter

open Interleave Interleave.Prog

variable (cx : Context)

/-! ## Single-use links -/

namespace OneTimeTokenService

/-- Returns the raw token; older unused tokens of the same kind stop working. -/
def issue (userId : Uuid) (purpose : TokenPurpose) (ttl : Time) (newEmail : Option String) :
    Req String := do
  sql (.authTokens (.invalidateUnused userId purpose))
  let token ← generateToken cx
  let now ← clock
  sql (.authTokens (.insert userId purpose token.hash newEmail (now + ttl)))
  pure token.raw

/-- Consumes the token: valid exactly once, and only before it expires. -/
def redeem (purpose : TokenPurpose) (raw : String) : Req AuthToken := do
  let claimed ← sql (.authTokens (.claim purpose (cx.sha256 raw)))
  okOr AuthError.invalidOrExpiredLink.into claimed

/-- Checks the token is valid without consuming it. -/
def peek (purpose : TokenPurpose) (raw : String) : Req AuthToken := do
  let found ← sql (.authTokens (.findUnused purpose (cx.sha256 raw)))
  okOr AuthError.invalidOrExpiredLink.into found

def invalidate (userId : Uuid) (purpose : TokenPurpose) : Req Unit :=
  sql (.authTokens (.invalidateUnused userId purpose))

def issuedWithin (userId : Uuid) (purpose : TokenPurpose) (window : Time) : Req ℕ := do
  let now ← clock
  sql (.authTokens (.countIssuedSince userId purpose (now - window)))

end OneTimeTokenService

/-! ## Email addresses -/

namespace EmailVerificationService

def currentUser (actor : AuthUser) : Req User := do
  let found ← sql (.users (.findById actor.id))
  okOr UsersError.notFound.into found

def sendVerification (user : User) : Req Unit := do
  let raw ← OneTimeTokenService.issue cx user.id .emailVerification
    (Time.hours cx.emailVerificationTtlHours) none
  send (.verification user.email raw)

def verify (token : String) : Req Unit := do
  let token ← OneTimeTokenService.redeem cx .emailVerification token
  sql (.users (.markEmailVerified token.userId))

/-- No-op when the address is already verified. -/
def resend (actor : AuthUser) : Req Unit := do
  let user ← currentUser actor
  if user.isEmailVerified then pure () else sendVerification cx user

/-- A confirmation link goes to the new address and a notice to the old one. -/
def requestChange (actor : AuthUser) (currentPassword newEmail : String) : Req Unit := do
  let user ← currentUser actor
  ensure (cx.verifyPassword currentPassword user.passwordHash = true)
    AuthError.wrongCurrentPassword.into
  let newEmail := cx.normalizeEmail newEmail
  ensure (newEmail ≠ user.email) AuthError.emailUnchanged.into
  let taken ← UsersService.findByEmail cx newEmail
  ensure (taken.isNone = true) UsersError.emailTaken.into
  let raw ← OneTimeTokenService.issue cx user.id .emailChange
    (Time.minutes cx.emailChangeTtlMinutes) (some newEmail)
  send (.emailChangeConfirm newEmail raw)
  send (.emailChangeNotice user.email newEmail)

def confirmChange (token : String) : Req Unit := do
  let token ← OneTimeTokenService.redeem cx .emailChange token
  let newEmail ← okOr AuthError.invalidOrExpiredLink.into token.newEmail
  UsersService.changeEmail cx token.userId newEmail
  OneTimeTokenService.invalidate token.userId .emailChange

end EmailVerificationService

/-! ## Passwords -/

/-- At most this many reset emails per account per hour. -/
def maxResetsPerHour : ℕ := 3

namespace PasswordResetService

/-- Always succeeds from the caller's point of view. -/
def forgot (email : String) : Req Unit := do
  match ← UsersService.findByEmail cx email with
  | none => pure ()
  | some user =>
      if user.isActive then do
        let recent ← OneTimeTokenService.issuedWithin user.id .passwordReset (Time.hours 1)
        if recent ≥ maxResetsPerHour then pure ()
        else do
          let raw ← OneTimeTokenService.issue cx user.id .passwordReset
            (Time.minutes cx.passwordResetTtlMinutes) none
          send (.passwordReset user.email raw)
      else pure ()

def reset (token newPassword : String) : Req Unit := do
  let token ← OneTimeTokenService.redeem cx .passwordReset token
  let found ← sql (.users (.findById token.userId))
  let user ← okOr AuthError.invalidOrExpiredLink.into (found.filter User.isActive)
  UsersService.setPassword cx user.id newPassword
  -- following the emailed link proves control of the inbox
  sql (.users (.markEmailVerified user.id))
  OneTimeTokenService.invalidate user.id .passwordReset
  send (.passwordChanged user.email)

def change (actor : AuthUser) (currentPassword newPassword : String) : Req Unit := do
  let user ← EmailVerificationService.currentUser actor
  ensure (cx.verifyPassword currentPassword user.passwordHash = true)
    AuthError.wrongCurrentPassword.into
  UsersService.setPassword cx user.id newPassword
  send (.passwordChanged user.email)

/-- Creates the account with an unguessable password and emails a link to choose a real one. -/
def invite (email : String) (displayName : Option String) (role : Option Role) :
    Req UserResponse := do
  let unusablePassword ← generateToken cx
  let user ← UsersService.createWithPassword cx email unusablePassword.raw displayName
    (role.getD .user) false
  let raw ← OneTimeTokenService.issue cx user.id .passwordReset
    (Time.hours cx.emailVerificationTtlHours) none
  send (.invitation user.email raw)
  pure user.response

end PasswordResetService

/-! ## Sessions -/

inductive LoginResponse
  | authenticated (token : TokenResponse)
  | twoFactorRequired (pendingToken : String)

def twoFactorPendingTtl : Time := Time.minutes 5

namespace SessionService

def register (email password : String) : Req UserResponse := do
  let user ← UsersService.createWithPassword cx email password none .user false
  -- a failed verification email must not fail sign-up
  let _ ← attempt (EmailVerificationService.sendVerification cx user)
  pure user.response

def isLocked (user : User) : Req Bool :=
  match user.lockedUntil with
  | none => pure false
  | some lockedUntil => do
      let now ← clock
      pure (decide (now < lockedUntil))

def wrongPassword (user : User) : Req LoginResponse := do
  sql (.users (.recordFailedLogin user.id cx.maxFailedLoginAttempts
    (Time.minutes cx.accountLockoutMinutes)))
  throw AuthError.invalidCredentials.into

/-- What the password check hands over to, once it succeeded. -/
def signIn (user : User) : Req LoginResponse := do
  sql (.users (.resetFailedLogins user.id))
  ensure (user.isActive = true) AuthError.accountDisabled.into
  ensure (¬(cx.requireVerifiedEmail ∧ ¬user.isEmailVerified)) AuthError.emailNotVerified.into
  if user.totpEnabled then do
    let pendingToken ←
      OneTimeTokenService.issue cx user.id .twoFactorPending twoFactorPendingTtl none
    pure (.twoFactorRequired pendingToken)
  else do
    let token ← issueJwt cx user
    pure (.authenticated token)

def login (email password : String) : Req LoginResponse := do
  let found ← UsersService.findByEmail cx email
  let user ← okOr AuthError.invalidCredentials.into found
  let locked ← isLocked user
  ensure (locked = false) AuthError.invalidCredentials.into
  if cx.verifyPassword password user.passwordHash then signIn cx user else wrongPassword cx user

end SessionService

/-! ## Two-factor -/

structure TotpSetupResponse where
  secret : String
  provisioningUri : String
  deriving DecidableEq

/-- Replaces whatever codes the account has with a fresh batch, in one transaction. -/
def TotpRecoveryCodeRepository.replaceAll (userId : Uuid) (codeHashes : List String) :
    Req Unit := do
  let found ← sql (.recoveryCodes (.lockAll userId))
  sql (.recoveryCodes (.replaceAll userId found codeHashes))

namespace TotpService

def requireActiveUser (id : Uuid) : Req User := do
  let found ← sql (.users (.findById id))
  okOr UsersError.notFound.into (found.filter User.isActive)

/-- Starts (or restarts) enrollment: a new secret, not enforced at login yet. -/
def beginSetup (actor : AuthUser) : Req TotpSetupResponse := do
  let user ← requireActiveUser actor.id
  let n ← ask Statement.draw
  let secret := cx.randomTotpSecret n
  let uri ← okOr .internal (cx.provisioningUri secret user.email)
  sql (.users (.setPendingTotpSecret user.id secret))
  pure ⟨secret, uri⟩

/-- Turns two-factor on and returns a fresh batch of recovery codes. -/
def confirmSetup (actor : AuthUser) (code : String) : Req (List String) := do
  let user ← requireActiveUser actor.id
  ensure (user.totpEnabled = false) AuthError.totpAlreadyEnabled.into
  let pendingSecret ← okOr AuthError.noTotpSetupInProgress.into user.totpSecret
  let accepted ← ask (Statement.verifyCode pendingSecret user.email code)
  ensure (accepted = true) AuthError.invalidTotpCode.into
  sql (.users (.enableTotp user.id))
  let n ← ask Statement.draw
  let batch := cx.randomRecoveryCodes n
  TotpRecoveryCodeRepository.replaceAll user.id (batch.map cx.sha256)
  pure batch

/-- Requires the current password so a stolen session token alone cannot turn two-factor off. -/
def disable (actor : AuthUser) (currentPassword : String) : Req Unit := do
  let user ← requireActiveUser actor.id
  ensure (cx.verifyPassword currentPassword user.passwordHash = true)
    AuthError.wrongCurrentPassword.into
  sql (.users (.disableTotp user.id))
  sql (.recoveryCodes (.deleteAll user.id))

/-- The authenticator code first, a recovery code only if that fails. -/
def checkCode (user : User) (secret code : String) : Req Bool := do
  let accepted ← ask (Statement.verifyCode secret user.email code)
  if accepted then pure true else sql (.recoveryCodes (.claim user.id (cx.sha256 code)))

/-- Completes a login that a correct password alone was not enough for. -/
def verifyLogin (pendingToken code : String) : Req TokenResponse := do
  let claim ← OneTimeTokenService.peek cx .twoFactorPending pendingToken
  let found ← sql (.users (.findById claim.userId))
  let user ← okOr AuthError.invalidTotpCode.into
    (found.filter fun u ↦ u.isActive && u.totpEnabled)
  let secret ← okOr AuthError.invalidTotpCode.into user.totpSecret
  let codeIsValid ← checkCode cx user secret code
  ensure (codeIsValid = true) AuthError.invalidTotpCode.into
  let _ ← OneTimeTokenService.redeem cx .twoFactorPending pendingToken
  issueJwt cx user

end TotpService

end ApiStarter
