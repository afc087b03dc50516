import ApiStarter.Interleave.Discipline
import ApiStarter.Services.Auth
import ApiStarter.Services.SignIn

/-!
# Requests

The controllers: what a request carries, which extractor it passes, and the use
case that serves it.  `handle_effects` says once, for every request, which
writes its handler can reach.
-/

namespace ApiStarter

open Interleave Interleave.Prog

inductive Request
  | createUser (caller : Presented) (email password : String) (displayName : Option String)
      (role : Option Role)
  | updateUser (caller : Presented) (id : Uuid) (dto : UpdateUserDto)
  | deleteUser (caller : Presented) (id : Uuid)
  | updateProfile (caller : Presented) (displayName : Option String)
  | bootstrapAdmin (email password : String)
  | register (email password : String)
  | login (email password : String)
  | twoFactorSetup (caller : Presented)
  | twoFactorEnable (caller : Presented) (code : String)
  | twoFactorDisable (caller : Presented) (currentPassword : String)
  | twoFactorVerify (pendingToken code : String)
  | forgotPassword (email : String)
  | resetPassword (token newPassword : String)
  | changePassword (caller : Presented) (currentPassword newPassword : String)
  | inviteUser (caller : Presented) (email : String) (displayName : Option String)
      (role : Option Role)
  | verifyEmail (token : String)
  | resendVerification (caller : Presented)
  | requestEmailChange (caller : Presented) (currentPassword newEmail : String)
  | confirmEmailChange (token : String)
  | oauthLogin (provider : Provider) (redirect : Option String)
  | oauthLink (caller : Presented) (provider : Provider)
  | oauthCallback (provider : Provider) (query : CallbackQuery) (answer : Option ProviderProfile)
  | oauthExchange (code : String)
  | oauthUnlink (caller : Presented) (provider : Provider)
  | passkeyRegisterBegin (caller : Presented)
  | passkeyRegisterFinish (caller : Presented) (challengeId credential : String)
      (name : Option String)
  | passkeyLoginBegin
  | passkeyLoginFinish (challengeId credential : String)
  | passkeyDelete (caller : Presented) (id : Uuid)
  | qrCreate (ip agent : Option String)
  | qrScan (caller : Presented) (id : String)
  | qrApprove (caller : Presented) (id code : String)
  | qrReject (caller : Presented) (id : String)
  | qrPoll (id : String) (secret : Option String)
  /-- The cleanup job, run by a worker. -/
  | cleanup

inductive Response
  | user (response : UserResponse)
  | message (text : String)
  | noContent
  | login (response : LoginResponse)
  | token (response : TokenResponse)
  | totpSetup (response : TotpSetupResponse)
  | totpEnabled (recoveryCodes : List String)
  | authorizeUrl (url : String)
  | callback (outcome : CallbackOutcome)
  | began (challengeId : String)
  | passkey (response : PasskeysService.PasskeyResponse)
  | qrCreated (session : CreatedSession)
  | qrScanned (response : ScanResponse)
  | qrPolled (response : PollResponse)

/-- `cleanup::run` on the tables modelled here. -/
def runCleanup : Req Unit := do
  let now ← clock
  let cutoff := now - Time.hours 1
  sql (.authTokens (.deleteExpired cutoff))
  sql (.oauthStates (.deleteExpired cutoff))
  sql (.challenges (.deleteExpired cutoff))
  sql (.qrSessions (.deleteExpired cutoff))
  sql (.loginGrants (.deleteExpired cutoff))
  let now ← clock
  sql (.jobs (.prune .succeeded (now - Time.days 1)))
  let now ← clock
  sql (.jobs (.prune .dead (now - Time.days 30)))

def handle (cx : Context) : Request → Req Response
  | .createUser caller email password displayName role => do
      let actor ← adminUser cx caller false
      let response ← UsersService.create cx actor email password displayName role
      pure (.user response)
  | .updateUser caller id dto => do
      let actor ← adminUser cx caller false
      let response ← UsersService.update actor id dto
      pure (.user response)
  | .deleteUser caller id => do
      let actor ← adminUser cx caller false
      let _ ← UsersService.delete actor id
      pure .noContent
  | .updateProfile caller displayName => do
      let actor ← authUser cx caller false
      let response ← UsersService.updateProfile actor displayName
      pure (.user response)
  | .bootstrapAdmin email password => do
      UsersService.ensureBootstrapAdmin cx email password
      pure .noContent
  | .register email password => do
      let response ← SessionService.register cx email password
      pure (.user response)
  | .login email password => do
      let response ← SessionService.login cx email password
      pure (.login response)
  | .twoFactorSetup caller => do
      let actor ← sessionUser cx caller false
      let response ← TotpService.beginSetup cx actor
      pure (.totpSetup response)
  | .twoFactorEnable caller code => do
      let actor ← sessionUser cx caller false
      let codes ← TotpService.confirmSetup cx actor code
      pure (.totpEnabled codes)
  | .twoFactorDisable caller currentPassword => do
      let actor ← sessionUser cx caller false
      TotpService.disable cx actor currentPassword
      pure (.message "Two-factor authentication disabled.")
  | .twoFactorVerify pendingToken code => do
      let response ← TotpService.verifyLogin cx pendingToken code
      pure (.token response)
  | .forgotPassword email => do
      PasswordResetService.forgot cx email
      pure (.message "If that address is registered, we sent a link to reset the password.")
  | .resetPassword token newPassword => do
      PasswordResetService.reset cx token newPassword
      pure (.message "Password updated.")
  | .changePassword caller currentPassword newPassword => do
      let actor ← sessionUser cx caller false
      PasswordResetService.change cx actor currentPassword newPassword
      pure (.message "Password updated.")
  | .inviteUser caller email displayName role => do
      let _ ← adminUser cx caller false
      let response ← PasswordResetService.invite cx email displayName role
      pure (.user response)
  | .verifyEmail token => do
      EmailVerificationService.verify cx token
      pure (.message "Email verified.")
  | .resendVerification caller => do
      let actor ← authUser cx caller false
      EmailVerificationService.resend cx actor
      pure (.message "If your email is not verified yet, we sent a new link.")
  | .requestEmailChange caller currentPassword newEmail => do
      let actor ← sessionUser cx caller false
      EmailVerificationService.requestChange cx actor currentPassword newEmail
      pure (.message "We sent a confirmation link to the new address.")
  | .confirmEmailChange token => do
      EmailVerificationService.confirmChange cx token
      pure (.message "Email address updated.")
  | .oauthLogin provider redirect => do
      let url ← OAuthService.loginUrl cx provider redirect
      pure (.authorizeUrl url)
  | .oauthLink caller provider => do
      let actor ← sessionUser cx caller false
      let url ← OAuthService.linkUrl cx actor provider
      pure (.authorizeUrl url)
  | .oauthCallback provider query answer => do
      let outcome ← OAuthService.handleCallback cx provider query (.answering answer)
      pure (.callback outcome)
  | .oauthExchange code => do
      let response ← OAuthService.exchange cx code
      pure (.token response)
  | .oauthUnlink caller provider => do
      let actor ← sessionUser cx caller false
      OAuthService.unlink actor provider
      pure .noContent
  | .passkeyRegisterBegin caller => do
      let actor ← sessionUser cx caller false
      let challengeId ← PasskeysService.beginRegistration cx actor
      pure (.began challengeId)
  | .passkeyRegisterFinish caller challengeId credential name => do
      let actor ← sessionUser cx caller false
      let response ← PasskeysService.finishRegistration cx actor challengeId credential name
      pure (.passkey response)
  | .passkeyLoginBegin => do
      let challengeId ← PasskeysService.beginLogin cx
      pure (.began challengeId)
  | .passkeyLoginFinish challengeId credential => do
      let response ← PasskeysService.finishLogin cx challengeId credential
      pure (.token response)
  | .passkeyDelete caller id => do
      let actor ← sessionUser cx caller false
      PasskeysService.delete actor id
      pure .noContent
  | .qrCreate ip agent => do
      let session ← QrLoginService.create cx ip agent
      pure (.qrCreated session)
  | .qrScan caller id => do
      let actor ← sessionUser cx caller false
      let response ← QrLoginService.scan actor id
      pure (.qrScanned response)
  | .qrApprove caller id code => do
      let actor ← sessionUser cx caller false
      QrLoginService.approve actor id code
      pure (.message "Login approved.")
  | .qrReject caller id => do
      let actor ← sessionUser cx caller false
      QrLoginService.reject actor id
      pure (.message "Login rejected.")
  | .qrPoll id secret => do
      let response ← QrLoginService.poll cx id secret
      pure (.qrPolled response)
  | .cleanup => do
      runCleanup
      pure .noContent

end ApiStarter
