import ApiStarter.Common
import ApiStarter.Relational.Table

/-!
# The database

One structure per table of `migrations/`, with the columns some modelled
statement reads or writes.  Primary keys and `UNIQUE` constraints on immutable
columns are the tables' keys.
-/

namespace ApiStarter

open Relational

structure User where
  id : Uuid
  email : String
  passwordHash : String
  displayName : Option String
  role : Role
  isActive : Bool
  emailVerifiedAt : Option Time
  createdAt : Time
  updatedAt : Option Time
  deletedAt : Option Time
  avatarKey : Option String
  passwordSet : Bool
  /-- Bumped on every password change; embedded in JWTs at issue time. -/
  tokenVersion : ℕ
  failedLoginAttempts : ℤ
  lockedUntil : Option Time
  totpSecret : Option String
  totpEnabled : Bool
  deriving DecidableEq

def User.isEmailVerified (u : User) : Bool := u.emailVerifiedAt.isSome

/-- `deleted_at IS NULL` -/
def User.isLive (u : User) : Bool := u.deletedAt.isNone

inductive TokenPurpose
  | passwordReset
  | emailVerification
  | emailChange
  | twoFactorPending
  deriving DecidableEq

structure AuthToken where
  userId : Uuid
  purpose : TokenPurpose
  tokenHash : String
  newEmail : Option String
  expiresAt : Time
  usedAt : Option Time
  createdAt : Time

structure RecoveryCode where
  userId : Uuid
  codeHash : String
  usedAt : Option Time
  createdAt : Time

inductive Provider
  | google
  | github
  deriving DecidableEq

def Provider.asStr : Provider → String
  | .google => "google"
  | .github => "github"

/-- An authorization request waiting for the provider to redirect back. -/
structure OAuthState where
  stateHash : String
  provider : Provider
  pkceVerifier : String
  /-- Set when an already signed-in user is linking a provider to their account. -/
  userId : Option Uuid
  redirectPath : String
  expiresAt : Time
  createdAt : Time

structure OAuthIdentity where
  userId : Uuid
  provider : Provider
  providerUserId : String
  email : Option String
  createdAt : Time

/-- `UNIQUE (provider, provider_user_id)` -/
def OAuthIdentity.key (i : OAuthIdentity) : Provider × String := (i.provider, i.providerUserId)

structure LoginGrant where
  codeHash : String
  userId : Uuid
  expiresAt : Time
  usedAt : Option Time
  createdAt : Time

structure PasskeyRow where
  id : Uuid
  userId : Uuid
  name : String
  credentialId : String
  credentialJson : String
  createdAt : Time
  lastUsedAt : Option Time

inductive ChallengeKind
  | registration
  | authentication
  deriving DecidableEq

structure Challenge where
  id : String
  kind : ChallengeKind
  userId : Option Uuid
  stateJson : String
  expiresAt : Time
  createdAt : Time

/-- pending -> scanned -> approved -> consumed, or -> rejected at any point before consumed. -/
inductive QrStatus
  | pending
  | scanned
  | approved
  | rejected
  | consumed
  deriving DecidableEq

def QrStatus.asStr : QrStatus → String
  | .pending => "pending"
  | .scanned => "scanned"
  | .approved => "approved"
  | .rejected => "rejected"
  | .consumed => "consumed"

structure QrSession where
  id : String
  secretHash : String
  code : String
  status : QrStatus
  userId : Option Uuid
  requesterIp : Option String
  requesterAgent : Option String
  attempts : ℤ
  expiresAt : Time
  createdAt : Time

structure ApiKey where
  id : Uuid
  userId : Uuid
  keyHash : String
  scope : ApiKeyScope
  expiresAt : Option Time
  lastUsedAt : Option Time
  revokedAt : Option Time

def ApiKey.isUsable (k : ApiKey) (now : Time) : Bool :=
  k.revokedAt.isNone && k.expiresAt.all fun expires ↦ now < expires

inductive AuditDetails
  | created (email : String) (role : Role)
  | roleChanged (before after : Role)
  | activeChanged (before after : Bool)
  | deleted (email : String)

structure AuditEntry where
  actorUserId : Uuid
  action : String
  targetUserId : Option Uuid
  details : AuditDetails
  createdAt : Time

inductive JobStatus
  | pending
  | running
  | succeeded
  | failed
  | dead
  deriving DecidableEq

structure JobRow where
  id : Uuid
  kind : String
  payload : String
  status : JobStatus
  attempts : ℤ
  maxAttempts : ℤ
  runAt : Time
  lockedAt : Option Time
  lastError : Option String
  createdAt : Time
  updatedAt : Time

structure Db where
  users : Table User.id
  authTokens : Table AuthToken.tokenHash
  recoveryCodes : List RecoveryCode
  oauthStates : Table OAuthState.stateHash
  oauthIdentities : Table OAuthIdentity.key
  loginGrants : Table LoginGrant.codeHash
  passkeys : Table PasskeyRow.id
  challenges : Table Challenge.id
  qrSessions : Table QrSession.id
  apiKeys : Table ApiKey.id
  auditLog : List AuditEntry
  jobs : Table JobRow.id

def Db.empty : Db where
  users := .empty
  authTokens := .empty
  recoveryCodes := []
  oauthStates := .empty
  oauthIdentities := .empty
  loginGrants := .empty
  passkeys := .empty
  challenges := .empty
  qrSessions := .empty
  apiKeys := .empty
  auditLog := []
  jobs := .empty

/-- The emails the application hands to its mail service. -/
inductive Mail
  | verification (recipient rawToken : String)
  | passwordReset (recipient rawToken : String)
  | invitation (recipient rawToken : String)
  | passwordChanged (recipient : String)
  | emailChangeConfirm (newEmail rawToken : String)
  | emailChangeNotice (oldEmail newEmail : String)

/-- What all requests share: the database, the clock, how many random draws were
made, and the emails sent so far. -/
structure Server where
  db : Db
  now : Time
  draws : ℕ
  mails : List Mail

end ApiStarter
