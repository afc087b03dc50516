import Mathlib.Data.Int.Notation
import Mathlib.Data.Nat.Notation

/-!
# Identities, time and errors

What `common/` gives every feature: ids, instants, roles, credentials and the
error type a handler ends with.
-/

namespace ApiStarter

abbrev Uuid := ℕ

/-- Instants and durations in microseconds, the resolution of `TIMESTAMPTZ`. -/
abbrev Time := ℤ

def Time.seconds (n : ℤ) : Time := n * 1000000
def Time.minutes (n : ℤ) : Time := Time.seconds (n * 60)
def Time.hours (n : ℤ) : Time := Time.minutes (n * 60)
def Time.days (n : ℤ) : Time := Time.hours (n * 24)

/-- `DateTime::timestamp` -/
def Time.timestamp (t : Time) : ℤ := t / 1000000

inductive Role
  | user
  | admin
  deriving DecidableEq

def Role.isAdmin (r : Role) : Bool := r = .admin

inductive ApiKeyScope
  | read
  | write
  deriving DecidableEq

/-- How the caller proved who they are. -/
inductive Credential
  | session
  | apiKey (scope : ApiKeyScope)
  deriving DecidableEq

structure AuthUser where
  id : Uuid
  role : Role
  credential : Credential
  deriving DecidableEq

/-- The content of an access token. -/
structure Claims where
  sub : Uuid
  role : Role
  tv : ℕ
  iat : ℤ
  exp : ℤ
  deriving DecidableEq

/-- What a request presents: a token whose signature `jwt::verify` accepted, or
an API key. -/
inductive Presented
  | bearer (claims : Claims)
  | apiKey (raw : String)
  deriving DecidableEq

inductive AppError
  | badRequest (message : String)
  | unauthorized (message : String)
  | forbidden (message : String)
  | notFound
  | conflict (message : String)
  | payloadTooLarge (message : String)
  | unsupportedMediaType (message : String)
  | internal
  | database
  deriving DecidableEq

inductive SecurityError
  | invalidToken
  | invalidApiKey
  | apiKeyReadOnly
  | sessionRequired
  | adminRequired
  deriving DecidableEq

def SecurityError.message : SecurityError → String
  | .invalidToken => "token is invalid or expired"
  | .invalidApiKey => "API key is invalid, expired or revoked"
  | .apiKeyReadOnly => "this API key is read-only"
  | .sessionRequired => "this action needs an interactive sign-in, an API key is not accepted"
  | .adminRequired => "administrator privileges are required"

def SecurityError.into (e : SecurityError) : AppError :=
  match e with
  | .adminRequired | .apiKeyReadOnly | .sessionRequired => .forbidden e.message
  | .invalidToken | .invalidApiKey => .unauthorized e.message

inductive UsersError
  | emailTaken
  | notFound
  | forbidden
  | cannotDeleteSelf
  | cannotLockOutSelf
  | cannotRemoveLastAdmin
  | passwordTooWeak (feedback : String)
  | passwordPreviouslyBreached
  deriving DecidableEq

def UsersError.message : UsersError → String
  | .emailTaken => "email is already registered"
  | .notFound => "user not found"
  | .forbidden => "you are not allowed to access this user"
  | .cannotDeleteSelf => "you cannot delete your own account here"
  | .cannotLockOutSelf => "administrators cannot demote or deactivate themselves"
  | .cannotRemoveLastAdmin => "at least one active administrator must remain"
  | .passwordTooWeak feedback => feedback
  | .passwordPreviouslyBreached =>
      "this password has appeared in a known data breach; choose a different one"

def UsersError.into (e : UsersError) : AppError :=
  match e with
  | .emailTaken => .conflict e.message
  | .notFound => .notFound
  | .forbidden => .forbidden e.message
  | .cannotDeleteSelf | .cannotLockOutSelf | .cannotRemoveLastAdmin | .passwordTooWeak _
  | .passwordPreviouslyBreached => .badRequest e.message

inductive AuthError
  | invalidCredentials
  | invalidOrExpiredLink
  | wrongCurrentPassword
  | emailUnchanged
  | emailNotVerified
  | accountDisabled
  | totpAlreadyEnabled
  | noTotpSetupInProgress
  | invalidTotpCode
  deriving DecidableEq

def AuthError.message : AuthError → String
  | .invalidCredentials => "invalid email or password"
  | .invalidOrExpiredLink => "this link is invalid or has expired"
  | .wrongCurrentPassword => "current password is incorrect"
  | .emailUnchanged => "the new email address is the same as the current one"
  | .emailNotVerified => "email address is not verified"
  | .accountDisabled => "this account is disabled"
  | .totpAlreadyEnabled => "two-factor authentication is already enabled"
  | .noTotpSetupInProgress => "start two-factor setup first"
  | .invalidTotpCode => "that code is incorrect or has expired"

def AuthError.into (e : AuthError) : AppError :=
  match e with
  | .invalidOrExpiredLink | .wrongCurrentPassword | .emailUnchanged | .totpAlreadyEnabled
  | .noTotpSetupInProgress => .badRequest e.message
  | .emailNotVerified | .accountDisabled => .forbidden e.message
  | .invalidCredentials | .invalidTotpCode => .unauthorized e.message

inductive OAuthError
  | providerUnavailable
  | invalidGrant
  | lastSignInMethod
  | notLinked
  | accountDisabled
  | emailNotVerified
  | provider (detail : String)
  deriving DecidableEq

def OAuthError.message : OAuthError → String
  | .providerUnavailable => "this sign-in provider is not available"
  | .invalidGrant => "this sign-in link is invalid or has expired"
  | .lastSignInMethod => "add a password or another sign-in method before removing this one"
  | .notLinked => "this account is not linked to that provider"
  | .accountDisabled => "this account is disabled"
  | .emailNotVerified => "email address is not verified"
  | .provider _ => "the sign-in provider could not be reached, try again"

def OAuthError.into (e : OAuthError) : AppError :=
  match e with
  | .providerUnavailable | .notLinked => .notFound
  | .invalidGrant | .lastSignInMethod | .provider _ => .badRequest e.message
  | .accountDisabled | .emailNotVerified => .forbidden e.message

inductive PasskeyError
  | limitReached (max : ℕ)
  | registrationFailed
  | alreadyRegistered
  | authenticationFailed
  | notFound
  | lastSignInMethod
  | emailNotVerified
  deriving DecidableEq

def PasskeyError.message : PasskeyError → String
  | .limitReached max =>
      "you can register at most " ++ toString max ++ " passkeys, remove one first"
  | .registrationFailed => "passkey registration failed, try again"
  | .alreadyRegistered => "this passkey is already registered"
  | .authenticationFailed => "passkey sign-in failed"
  | .notFound => "passkey not found"
  | .lastSignInMethod => "add a password or another sign-in method before removing this passkey"
  | .emailNotVerified => "email address is not verified"

def PasskeyError.into (e : PasskeyError) : AppError :=
  match e with
  | .limitReached _ | .registrationFailed | .alreadyRegistered | .lastSignInMethod =>
      .badRequest e.message
  | .authenticationFailed => .unauthorized e.message
  | .notFound => .notFound
  | .emailNotVerified => .forbidden e.message

inductive QrError
  | notFound
  | expired
  | alreadyScanned
  | wrongCode
  | tooManyAttempts
  | emailNotVerified
  deriving DecidableEq

def QrError.message : QrError → String
  | .notFound => "QR login session not found"
  | .expired => "this QR code has expired, ask the other device for a new one"
  | .alreadyScanned => "this QR code was already scanned by another account"
  | .wrongCode => "the verification code does not match the one shown on the other device"
  | .tooManyAttempts => "too many wrong codes, this QR login was cancelled"
  | .emailNotVerified => "email address is not verified"

def QrError.into (e : QrError) : AppError :=
  match e with
  | .notFound => .notFound
  | .expired | .wrongCode | .tooManyAttempts => .badRequest e.message
  | .alreadyScanned => .conflict e.message
  | .emailNotVerified => .forbidden e.message

inductive MediaError
  | empty
  | tooLarge (mebibytes : ℕ)
  | unrecognizedType
  | typeNotAllowed (contentType : String)
  | notFound
  deriving DecidableEq

def MediaError.message : MediaError → String
  | .empty => "the upload is empty"
  | .tooLarge mebibytes => "the file is too large: at most " ++ toString mebibytes ++ " MiB"
  | .unrecognizedType => "the file type could not be recognized"
  | .typeNotAllowed contentType => "files of type " ++ contentType ++ " are not accepted"
  | .notFound => "no such file"

def MediaError.into (e : MediaError) : AppError :=
  match e with
  | .empty => .badRequest e.message
  | .tooLarge _ => .payloadTooLarge e.message
  | .unrecognizedType | .typeNotAllowed _ => .unsupportedMediaType e.message
  | .notFound => .notFound

inductive AvatarError
  | invalidImage
  | tooLarge (mebibytes : ℕ)
  | notFound
  deriving DecidableEq

def AvatarError.message : AvatarError → String
  | .invalidImage => "the file is not a supported image (use PNG, JPEG, WebP or GIF)"
  | .tooLarge mebibytes =>
      "the image is too large: at most " ++ toString mebibytes ++ " MiB and 8192 x 8192 pixels"
  | .notFound => "no such avatar"

def AvatarError.into (e : AvatarError) : AppError :=
  match e with
  | .invalidImage => .badRequest e.message
  | .tooLarge _ => .payloadTooLarge e.message
  | .notFound => .notFound

end ApiStarter
