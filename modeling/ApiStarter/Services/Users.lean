import ApiStarter.Statements

/-!
# Callers and accounts

The extractors that turn a presented credential into a caller, and the use
cases of `modules/users/services`.
-/

namespace ApiStarter

open Interleave Interleave.Prog

abbrev Req (α : Type) := Prog Statement.Res AppError α

/-- Run one SQL statement; a database error ends the request. -/
def sql (q : Sql) : Req q.Res := do
  let r ← ask (Statement.sql q)
  okOr .database r

def clock {ε : Type} : Prog Statement.Res ε Time := ask Statement.clock

def send {ε : Type} (m : Mail) : Prog Statement.Res ε Unit := ask (Statement.mail m)

/-- The answer of a statement that reports a rule of its own as an error. -/
def orThrow {α : Type} : Except UsersError α → Req α
  | .ok a => pure a
  | .error e => throw e.into

structure GeneratedToken where
  raw : String
  hash : String

/-- `secret_token::generate` -/
def generateToken {ε : Type} (cx : Context) : Prog Statement.Res ε GeneratedToken := do
  let n ← ask Statement.draw
  pure ⟨cx.randomToken n, cx.sha256 (cx.randomToken n)⟩

structure TokenResponse where
  accessToken : Claims
  tokenType : String
  expiresIn : ℤ
  deriving DecidableEq

/-- `jwt::issue`, the encoded token being its claims. -/
def issueJwt (cx : Context) (user : User) : Req TokenResponse := do
  let now ← clock
  pure ⟨⟨user.id, user.role, user.tokenVersion, now.timestamp, now.timestamp + cx.jwtTtlSecs⟩,
    "Bearer", cx.jwtTtlSecs⟩

/-! ## Who is calling -/

/-- Seconds `jsonwebtoken` forgives an expired token. -/
def jwtLeewaySecs : ℤ := 60

/-- `SessionVerifier::verify` -/
def verifySession (userId : Uuid) (tokenVersion : ℕ) : Req AuthUser := do
  let found ← sql (.users (.findById userId))
  let user ← okOr SecurityError.invalidToken.into (found.filter User.isActive)
  ensure (user.tokenVersion = tokenVersion) SecurityError.invalidToken.into
  pure ⟨user.id, user.role, .session⟩

/-- `ApiKeysService::authenticate` -/
def authenticateApiKey (cx : Context) (presented : String) : Req AuthUser := do
  let now ← clock
  let found ← sql (.apiKeys (.findByHash (cx.sha256 presented)))
  let key ← okOr SecurityError.invalidApiKey.into (found.filter (ApiKey.isUsable · now))
  let found ← sql (.users (.findById key.userId))
  let owner ← okOr SecurityError.invalidApiKey.into (found.filter User.isActive)
  sql (.apiKeys (.touch key.id now))
  pure ⟨owner.id, owner.role, .apiKey key.scope⟩

/-- The `AuthUser` extractor. -/
def authUser (cx : Context) (presented : Presented) (isSafeMethod : Bool) : Req AuthUser :=
  match presented with
  | .apiKey raw => do
      let user ← authenticateApiKey cx raw
      ensure (user.credential ≠ .apiKey .read ∨ isSafeMethod) SecurityError.apiKeyReadOnly.into
      pure user
  | .bearer claims => do
      let now ← clock
      ensure (now.timestamp - jwtLeewaySecs ≤ claims.exp) SecurityError.invalidToken.into
      verifySession claims.sub claims.tv

/-- The `SessionUser` extractor: only an interactive sign-in is accepted. -/
def sessionUser (cx : Context) (presented : Presented) (isSafeMethod : Bool) : Req AuthUser := do
  let user ← authUser cx presented isSafeMethod
  ensure (user.credential = .session) SecurityError.sessionRequired.into
  pure user

/-- The `AdminUser` extractor. -/
def adminUser (cx : Context) (presented : Presented) (isSafeMethod : Bool) : Req AuthUser := do
  let user ← authUser cx presented isSafeMethod
  ensure (user.role.isAdmin = true) SecurityError.adminRequired.into
  pure user

/-! ## Accounts -/

structure UserResponse where
  id : Uuid
  email : String
  displayName : Option String
  role : Role
  isActive : Bool
  emailVerified : Bool
  avatarUrl : Option String
  hasPassword : Bool
  totpEnabled : Bool
  createdAt : Time
  deriving DecidableEq

/-- Public URL (relative to the API host) of a stored avatar file. -/
def avatarUrl (key : String) : String := "/api/v1/avatars/" ++ key

def User.response (u : User) : UserResponse where
  id := u.id
  email := u.email
  displayName := u.displayName
  role := u.role
  isActive := u.isActive
  emailVerified := u.isEmailVerified
  avatarUrl := u.avatarKey.map avatarUrl
  hasPassword := u.passwordSet
  totpEnabled := u.totpEnabled
  createdAt := u.createdAt

/-- `AuditLogService::record`: failures are logged, never propagated. -/
def recordAudit (actorUserId : Uuid) (action : String) (targetUserId : Option Uuid)
    (details : AuditDetails) : Req Unit := do
  let _ ← attempt (sql (.recordAudit actorUserId action targetUserId details))
  pure ()

/-- `password::hash_blocking` -/
def hashBlocking (cx : Context) (password : String) : Req String := do
  let n ← ask Statement.draw
  okOr .internal (cx.argon2 (cx.randomSalt n) password)

structure UpdateUserDto where
  displayName : Option String
  role : Option Role
  isActive : Option Bool
  deriving DecidableEq

namespace Policy

/-- An administrator may not demote or deactivate their own account (avoids self lock-out). -/
def checkAdminUpdate (actor : AuthUser) (target : Uuid) (patch : UpdateUserDto) : Req Unit :=
  let demotes := patch.role = some .user
  let deactivates := patch.isActive = some false
  ensure (¬(actor.id = target ∧ (demotes ∨ deactivates))) UsersError.cannotLockOutSelf.into

def checkDelete (actor : AuthUser) (target : Uuid) : Req Unit :=
  ensure (actor.id ≠ target) UsersError.cannotDeleteSelf.into

end Policy

namespace UsersService

variable (cx : Context)

def require (id : Uuid) : Req User := do
  let found ← sql (.users (.findById id))
  okOr UsersError.notFound.into found

/-- Enforces password strength (always) and, if `check_password_breaches` is on, that the
password has not appeared in a known breach. -/
def rejectPasswordIfPolicyViolation (candidatePassword email : String)
    (displayName : Option String) : Req Unit :=
  match cx.tooWeak candidatePassword (email :: displayName.toList) with
  | some feedback => throw (UsersError.passwordTooWeak feedback).into
  | none =>
      ensure (¬(cx.checkPasswordBreaches ∧ cx.appearedInBreach candidatePassword))
        UsersError.passwordPreviouslyBreached.into

/-- `UsersRepository::create`, which draws the id itself. -/
def insertUser (new : NewUser) : Req User := do
  let n ← ask Statement.draw
  let created ← sql (.users (.create (cx.randomUuid n) new))
  orThrow created

def createWithPassword (email password : String) (displayName : Option String) (role : Role)
    (emailVerified : Bool) : Req User := do
  let email := cx.normalizeEmail email
  rejectPasswordIfPolicyViolation cx password email displayName
  let hash ← hashBlocking cx password
  insertUser cx ⟨email, hash, displayName, role, emailVerified, true⟩

/-- Creates an account that signs in through an external provider and has no password. -/
def createPasswordless (email : String) (displayName : Option String) (emailVerified : Bool) :
    Req User :=
  insertUser cx
    ⟨cx.normalizeEmail email, "!no-password", displayName, .user, emailVerified, false⟩

def findByEmail (email : String) : Req (Option User) :=
  sql (.users (.findByEmail (cx.normalizeEmail email)))

def setPassword (id : Uuid) (newPassword : String) : Req Unit := do
  let account ← require id
  rejectPasswordIfPolicyViolation cx newPassword account.email account.displayName
  let hash ← hashBlocking cx newPassword
  sql (.users (.setPasswordHash id hash))

def changeEmail (id : Uuid) (newEmail : String) : Req Unit := do
  let changed ← sql (.users (.changeEmail id (cx.normalizeEmail newEmail)))
  orThrow changed

def create (actor : AuthUser) (email password : String) (displayName : Option String)
    (role : Option Role) : Req UserResponse := do
  let assignedRole := role.getD .user
  let user ← createWithPassword cx email password displayName assignedRole false
  recordAudit actor.id "user.created_by_admin" (some user.id) (.created user.email assignedRole)
  pure user.response

def auditRole (actor : AuthUser) (before : User) : Option Role → Req Unit
  | some newRole =>
      if newRole ≠ before.role then
        recordAudit actor.id "user.role_changed" (some before.id) (.roleChanged before.role newRole)
      else pure ()
  | none => pure ()

def auditActive (actor : AuthUser) (before : User) : Option Bool → Req Unit
  | some nowActive =>
      if nowActive ≠ before.isActive then
        recordAudit actor.id "user.active_status_changed" (some before.id)
          (.activeChanged before.isActive nowActive)
      else pure ()
  | none => pure ()

def update (actor : AuthUser) (id : Uuid) (dto : UpdateUserDto) : Req UserResponse := do
  Policy.checkAdminUpdate actor id dto
  let before ← require id
  -- only decides whether the check inside the transaction is worth paying for
  let guardLastAdmin := decide (dto.role = some .user) || decide (dto.isActive = some false)
  let result ← sql (.users (.update id ⟨dto.displayName, dto.role, dto.isActive⟩ guardLastAdmin))
  let found ← orThrow result
  let updated ← okOr UsersError.notFound.into found
  auditRole actor before dto.role
  auditActive actor before dto.isActive
  pure updated.response

/-- Returns the deleted user's avatar file name, if any. -/
def delete (actor : AuthUser) (id : Uuid) : Req (Option String) := do
  Policy.checkDelete actor id
  let target ← require id
  let guardLastAdmin := target.role.isAdmin && target.isActive
  let result ← sql (.users (.softDelete id guardLastAdmin))
  let deleted ← orThrow result
  ensure (deleted = true) UsersError.notFound.into
  recordAudit actor.id "user.deleted" (some id) (.deleted target.email)
  pure target.avatarKey

def updateProfile (actor : AuthUser) (displayName : Option String) : Req UserResponse := do
  let result ← sql (.users (.update actor.id ⟨displayName, none, none⟩ false))
  let found ← orThrow result
  let updated ← okOr UsersError.notFound.into found
  pure updated.response

/-- Creates the first administrator when none exists; a failure to do so is only logged. -/
def ensureBootstrapAdmin (email password : String) : Req Unit := do
  let admins ← sql (.users .countActiveAdmins)
  if 0 < admins then pure ()
  else do
    let _ ← attempt (createWithPassword cx email password none .admin true)
    pure ()

end UsersService

end ApiStarter
