import ApiStarter.Services.Users

/-!
# Signing in without a password

The use cases of `modules/oauth/services`, `modules/passkeys/services` and
`modules/qr_login/services`.
-/

namespace ApiStarter

open Interleave Interleave.Prog

variable (cx : Context)

/-! ## OAuth -/

def stateTtl : Time := Time.minutes 10

/-- The redirect-to-token hand-over is immediate, so the code only needs to live briefly. -/
def grantTtl : Time := Time.seconds 60

structure CallbackQuery where
  code : Option String
  state : Option String
  /-- Set by the provider when the user cancelled or something went wrong. -/
  error : Option String

/-- What the browser should be told after the provider redirects back. -/
inductive CallbackOutcome
  | loggedIn (code redirect : String)
  | linked (provider : Provider) (redirect : String)
  | failed (reason : String)

/-- Only same-site relative paths are allowed, so the redirect can never leave the frontend. -/
def safeRedirectPath (input : Option String) : String :=
  match input with
  | some path =>
      if path.toList.head? = some '/' ∧ path.toList.take 2 ≠ ['/', '/'] ∧ '\\' ∉ path.toList ∧
          ¬path.toList.any isControl ∧ path.utf8ByteSize ≤ 200 then path
      else "/"
  | none => "/"
where
  isControl (c : Char) : Bool := c.toNat < 0x20 || (0x7F ≤ c.toNat && c.toNat < 0xA0)

namespace OAuthService

/-- The callback's steps fail with a stable machine-readable reason. -/
abbrev Callback (α : Type) := Prog Statement.Res String α

def orServerError {α : Type} (p : Req α) : Callback α := mapErr (fun _ ↦ "server_error") p

def insertState (row : Time → OAuthState) : Req Unit := do
  let now ← clock
  sql (.oauthStates (.deleteExpired now))
  sql (.oauthStates (.insert (row now)))

def start (provider : Provider) (userId : Option Uuid) (redirectPath : String) : Req String := do
  ensure (cx.providerEnabled provider = true) OAuthError.providerUnavailable.into
  let state ← generateToken cx
  let verifier ← generateToken cx
  let now ← clock
  insertState fun createdAt ↦
    ⟨state.hash, provider, verifier.raw, userId, redirectPath, now + stateTtl, createdAt⟩
  okOr (OAuthError.provider "bad authorize URL").into
    (cx.authorizeUrl provider state.raw (cx.pkceChallenge verifier.raw))

def loginUrl (provider : Provider) (redirect : Option String) : Req String :=
  start cx provider none (safeRedirectPath redirect)

/-- Start linking a provider to the signed-in user's account. -/
def linkUrl (actor : AuthUser) (provider : Provider) : Req String :=
  start cx provider (some actor.id) "/settings"

def insertGrant (codeHash : String) (userId : Uuid) (expiresAt : Time) : Req Unit := do
  let now ← clock
  sql (.loginGrants (.deleteExpired now))
  sql (.loginGrants (.insert ⟨codeHash, userId, expiresAt, none, now⟩))

/-- Issues the single-use code the SPA trades for an access token. -/
def grantFor (userId : Uuid) (redirect : String) : Callback CallbackOutcome := do
  let found ← orServerError (sql (.users (.findById userId)))
  let user ← okOr "invalid_state" found
  ensure (user.isActive = true) "account_disabled"
  ensure (¬(cx.requireVerifiedEmail ∧ ¬user.isEmailVerified)) "email_not_verified"
  let grant ← generateToken cx
  let now ← clock
  orServerError (insertGrant grant.hash userId (now + grantTtl))
  pure (.loggedIn grant.raw redirect)

def link (userId : Uuid) (provider : Provider) (profile : ProviderProfile) : Callback Unit := do
  let linked ← orServerError
    (sql (.oauthIdentities (.insert userId provider profile.providerUserId profile.email)))
  ensure (linked = true) "already_linked"

/-- The account a provider-verified email signs in to, created when there is none. -/
def accountFor (email : String) (profile : ProviderProfile) : Callback User := do
  match ← orServerError (UsersService.findByEmail cx email) with
  | some existing => do
      ensure (existing.isActive = true) "account_disabled"
      -- whoever pre-registered an unverified address could otherwise share the account
      ensure (existing.isEmailVerified = true) "account_exists_unverified"
      pure existing
  | none =>
      let displayName := (profile.name.map fun n ↦ takeChars 100 (trim n)).filter (· ≠ "")
      orServerError (UsersService.createPasswordless cx email displayName true)

/-- Decides which account this provider identity belongs to. -/
def resolve (provider : Provider) (profile : ProviderProfile) (linkingUser : Option Uuid)
    (redirect : String) : Callback CallbackOutcome := do
  match ← orServerError (sql (.oauthIdentities (.find provider profile.providerUserId))) with
  | some identity =>
      match linkingUser with
      | some userId =>
          if userId = identity.userId then pure (.linked provider redirect)
          else throw "already_linked"
      | none => grantFor cx identity.userId redirect
  | none =>
      match linkingUser with
      | some userId => do
          let found ← orServerError (sql (.users (.findById userId)))
          let _ ← okOr "invalid_state" (found.filter User.isActive)
          link userId provider profile
          pure (.linked provider redirect)
      | none => do
          -- never trust an unverified provider email
          let email ← okOr "email_not_verified" (profile.email.filter fun _ ↦ profile.emailVerified)
          let user ← accountFor cx email profile
          link user.id provider profile
          grantFor cx user.id redirect

def callback (provider : Provider) (query : CallbackQuery) (calls : ProviderCalls) :
    Callback CallbackOutcome := do
  let stateRaw ← okOr "invalid_state" query.state
  let claimed ← orServerError (sql (.oauthStates (.claim (cx.sha256 stateRaw))))
  let state ← okOr "invalid_state" claimed
  ensure (state.provider = provider) "invalid_state"
  ensure (query.error.isNone = true) "access_denied"
  let code ← okOr "access_denied" query.code
  let accessToken ← okOr "provider_error" (calls.exchangeCode code state.pkceVerifier)
  let profile ← okOr "provider_error" (calls.fetchProfile accessToken)
  resolve cx provider profile state.userId state.redirectPath

/-- Never an error: every failure becomes a page the browser lands on. -/
def handleCallback (provider : Provider) (query : CallbackQuery) (calls : ProviderCalls) :
    Req CallbackOutcome := do
  match ← attempt (callback cx provider query calls) with
  | .ok outcome => pure outcome
  | .error reason => pure (.failed reason)

/-- Trades the one-time code for an access token. -/
def exchange (code : String) : Req TokenResponse := do
  let claimed ← sql (.loginGrants (.claim (cx.sha256 code)))
  let userId ← okOr OAuthError.invalidGrant.into claimed
  let found ← sql (.users (.findById userId))
  let user ← okOr OAuthError.accountDisabled.into (found.filter User.isActive)
  issueJwt cx user

/-- Removes the link, unless it is the account's only way to sign in. -/
def unlink (actor : AuthUser) (provider : Provider) : Req Unit := do
  let identities ← sql (.oauthIdentities (.list actor.id))
  let linked := identities.any fun i ↦ decide (i.provider = provider)
  ensure (linked = true) OAuthError.notLinked.into
  let count ← sql (.signInMethodCount actor.id)
  ensure (¬count < 2) OAuthError.lastSignInMethod.into
  let _ ← sql (.oauthIdentities (.delete actor.id provider))
  pure ()

end OAuthService

/-! ## Passkeys -/

def challengeTtl : Time := Time.minutes 5
def maxPasskeysPerUser : ℕ := 10

namespace PasskeysService

def activeUser (id : Uuid) : Req User := do
  let found ← sql (.users (.findById id))
  okOr UsersError.notFound.into (found.filter User.isActive)

def storeChallenge (kind : ChallengeKind) (userId : Option Uuid) (stateJson : String) :
    Req String := do
  let n ← ask Statement.draw
  let id := cx.simple (cx.randomUuid n)
  let expiresFrom ← clock
  let now ← clock
  sql (.challenges (.deleteExpired now))
  sql (.challenges (.insert ⟨id, kind, userId, stateJson, expiresFrom + challengeTtl, now⟩))
  pure id

/-- The stored state of the ceremony, which must decode; `failed` where none is found. -/
def claimChallenge (id : String) (kind : ChallengeKind) (userId : Option Uuid)
    (failed : AppError) : Req String := do
  let claimed ← sql (.challenges (.claim id kind userId))
  let stateJson ← okOr failed claimed
  ensure (cx.decodesState kind stateJson = true) .internal
  pure stateJson

/-- Rows that no longer decode are skipped. -/
def decoded (rows : List PasskeyRow) : List (PasskeyRow × Passkey) :=
  rows.filterMap fun row ↦ (cx.decodePasskey row.credentialJson).map fun passkey ↦ (row, passkey)

def beginRegistration (actor : AuthUser) : Req String := do
  let user ← activeUser actor.id
  let rows ← sql (.passkeys (.listByUser user.id))
  ensure (¬(decoded cx rows).length ≥ maxPasskeysPerUser)
    (PasskeyError.limitReached maxPasskeysPerUser).into
  let n ← ask Statement.draw
  -- ask the authenticator not to create a second passkey for a device that already has one
  let exclude := (decoded cx rows).map fun entry ↦ entry.2.credId
  let state ← okOr .internal
    (cx.startRegistration n user.id user.email (user.displayName.getD user.email) exclude)
  storeChallenge cx .registration (some user.id) state

structure PasskeyResponse where
  id : Uuid
  name : String
  createdAt : Time
  lastUsedAt : Option Time
  deriving DecidableEq

def passkeyName (name : Option String) : String :=
  ((name.map trim).filter (· ≠ "")).getD "Passkey"

def finishRegistration (actor : AuthUser) (challengeId credential : String)
    (name : Option String) : Req PasskeyResponse := do
  let state ← claimChallenge cx challengeId .registration (some actor.id)
    PasskeyError.registrationFailed.into
  let passkey ← okOr PasskeyError.registrationFailed.into (cx.finishRegistration credential state)
  let n ← ask Statement.draw
  let stored ← sql (.passkeys (.insert (cx.randomUuid n) actor.id (passkeyName name)
    passkey.credId (cx.encodePasskey passkey)))
  let row ← okOr PasskeyError.alreadyRegistered.into stored
  pure ⟨row.id, row.name, row.createdAt, row.lastUsedAt⟩

def beginLogin : Req String := do
  let n ← ask Statement.draw
  let state ← okOr .internal (cx.startAuthentication n)
  storeChallenge cx .authentication none state

/-- Keep the signature counter current: a regressing counter signals a cloned authenticator. -/
def updateCounter (result : AuthenticationResult) (row : PasskeyRow)
    (passkey : Passkey) : Req Unit :=
  match cx.updateCredential passkey result with
  | some updated => sql (.passkeys (.updateAfterUse row.id (cx.encodePasskey updated)))
  | none => pure ()

def updateCounters (result : AuthenticationResult) : List (PasskeyRow × Passkey) → Req Unit
  | [] => pure ()
  | (row, passkey) :: rest => do
      updateCounter cx result row passkey
      updateCounters result rest

def finishLogin (challengeId credential : String) : Req TokenResponse := do
  let state ← claimChallenge cx challengeId .authentication none
    PasskeyError.authenticationFailed.into
  let userId ← okOr PasskeyError.authenticationFailed.into (cx.identify credential)
  let found ← sql (.users (.findById userId))
  let user ← okOr PasskeyError.authenticationFailed.into (found.filter User.isActive)
  let rows ← sql (.passkeys (.listByUser user.id))
  let passkeys := decoded cx rows
  let result ← okOr PasskeyError.authenticationFailed.into
    (cx.finishAuthentication credential state (passkeys.map Prod.snd))
  updateCounters cx result passkeys
  ensure (¬(cx.requireVerifiedEmail ∧ ¬user.isEmailVerified)) PasskeyError.emailNotVerified.into
  issueJwt cx user

/-- Removes a passkey, unless it is the account's only way to sign in. -/
def delete (actor : AuthUser) (id : Uuid) : Req Unit := do
  let passkeys ← sql (.passkeys (.listByUser actor.id))
  let ownsIt := passkeys.any fun p ↦ decide (p.id = id)
  ensure (ownsIt = true) PasskeyError.notFound.into
  let count ← sql (.signInMethodCount actor.id)
  ensure (¬count < 2) PasskeyError.lastSignInMethod.into
  let _ ← sql (.passkeys (.delete actor.id id))
  pure ()

end PasskeysService

/-! ## QR login -/

structure CreatedSession where
  id : String
  pollSecret : String
  verificationCode : String
  qrPayload : String
  qrSvg : String
  expiresAt : Time

structure ScanResponse where
  requesterIp : Option String
  requesterAgent : Option String
  requestedAt : Time
  expiresAt : Time

structure PollResponse where
  status : String
  token : Option TokenResponse
  deriving DecidableEq

namespace QrLoginService

def ofStatus (status : String) : PollResponse := ⟨status, none⟩

def requireScannedBy (session : QrSession) (actor : AuthUser) : Req Unit :=
  ensure (session.status = .scanned ∧ session.userId = some actor.id) QrError.notFound.into

def find (id : String) : Req QrSession := do
  let found ← sql (.qrSessions (.find id))
  okOr QrError.notFound.into found

/-- Like `find`, but an expired session is reported as such. -/
def findLive (id : String) : Req QrSession := do
  let session ← find id
  let now ← clock
  ensure (¬session.expiresAt ≤ now) QrError.expired.into
  pure session

/-- Step 1, from the device that wants to sign in. -/
def create (ip agent : Option String) : Req CreatedSession := do
  let idToken ← generateToken cx
  let id := takeChars 22 idToken.raw
  let secret ← generateToken cx
  let n ← ask Statement.draw
  let code := cx.randomVerificationCode n
  let created ← clock
  let expiresAt := created + Time.seconds cx.qrTtlSecs
  let now ← clock
  sql (.qrSessions (.deleteExpired (now - Time.days 1)))
  sql (.qrSessions (.insert id secret.hash code ip agent expiresAt now))
  let payload := cx.frontendUrl ++ "/qr-login?session=" ++ id
  let svg ← okOr .internal (cx.renderQr payload)
  pure ⟨id, secret.raw, code, payload, svg, expiresAt⟩

/-- Lost a race with another scanner (or it just expired): decide again. -/
def decideAgain (actor : AuthUser) (id : String) : Req Unit := do
  let session ← findLive id
  ensure (session.userId = some actor.id) QrError.alreadyScanned.into

def claimScan (actor : AuthUser) (id : String) (session : QrSession) : Req Unit :=
  match session.status, session.userId with
  | .pending, _ => do
      let marked ← sql (.qrSessions (.markScanned id actor.id))
      if marked then pure () else decideAgain actor id
  | .scanned, some scanner =>
      ensure (scanner = actor.id) QrError.alreadyScanned.into
  | .scanned, none => throw QrError.alreadyScanned.into
  | _, _ => throw QrError.notFound.into

/-- Step 2, from the signed-in device that scanned the QR code. -/
def scan (actor : AuthUser) (id : String) : Req ScanResponse := do
  let session ← findLive id
  claimScan actor id session
  pure ⟨session.requesterIp, session.requesterAgent, session.createdAt, session.expiresAt⟩

def wrongCode (id : String) : Req Unit := do
  let cancelled ← sql (.qrSessions (.recordWrongCode id))
  throw (if cancelled then QrError.tooManyAttempts else QrError.wrongCode).into

/-- Step 3: the user confirms, proving they can see the other device's screen. -/
def approve (actor : AuthUser) (id code : String) : Req Unit := do
  let session ← findLive id
  requireScannedBy session actor
  if session.code ≠ code then wrongCode id
  else do
    let resolved ← sql (.qrSessions (.resolve id actor.id .approved))
    ensure (resolved = true) QrError.notFound.into

def reject (actor : AuthUser) (id : String) : Req Unit := do
  let session ← findLive id
  requireScannedBy session actor
  let _ ← sql (.qrSessions (.resolve id actor.id .rejected))
  pure ()

def collectToken (id : String) : Req PollResponse := do
  match ← sql (.qrSessions (.consume id)) with
  -- another poll won the race; the token is gone
  | none => pure (ofStatus "consumed")
  | some userId => do
      let found ← sql (.users (.findById userId))
      let user ← okOr QrError.notFound.into (found.filter User.isActive)
      ensure (¬(cx.requireVerifiedEmail ∧ ¬user.isEmailVerified)) QrError.emailNotVerified.into
      let token ← issueJwt cx user
      pure ⟨"approved", some token⟩

/-- Step 4, polled by the new device with its secret. -/
def poll (id : String) (secret : Option String) : Req PollResponse := do
  let session ← find id
  ensure (secret.map cx.sha256 = some session.secretHash) QrError.notFound.into
  match session.status with
  | .consumed => pure (ofStatus "consumed")
  | .rejected => pure (ofStatus "rejected")
  | status => do
      let now ← clock
      if session.expiresAt ≤ now then pure (ofStatus "expired")
      else if status = .approved then collectToken cx id
      else pure (ofStatus status.asStr)

end QrLoginService

end ApiStarter
