import ApiStarter.ExpiryTimes
import ApiStarter.Web.UrlText

/-!
# The provider client

The two calls of the authorization-code flow and the profile lookup of
`modules/oauth/client.rs`, for Google and GitHub.  What the network answers is
an argument.
-/

namespace ApiStarter

open Chrono Web

/-- What succeeds as a whole succeeds at its first step. -/
theorem exists_of_bind_eq_ok {ε α β : Type} {x : Except ε α} {f : α → Except ε β} {b : β}
    (h : x >>= f = .ok b) : ∃ a, x = .ok a ∧ f a = .ok b := by
  cases x with
  | error e => cases h
  | ok a => exact ⟨a, rfl, h⟩

theorem eq_ok_of_toOption {ε α : Type} {x : Except ε α} {a : α} (h : x.toOption = some a) :
    x = .ok a := by
  cases x with
  | error e => cases h
  | ok b => exact congrArg Except.ok (Option.some.inj h)

theorem eq_ok_of_mapError {ε ε' α : Type} {f : ε → ε'} {x : Except ε α} {a : α}
    (h : x.mapError f = .ok a) : x = .ok a := by
  cases x with
  | error e => cases h
  | ok b => exact congrArg Except.ok (Except.ok.inj h)

/-! ## JSON -/

/-- A value of `serde_json`; numbers are told apart by how they were written. -/
inductive Value
  | null
  | bool (b : Bool)
  | integer (n : ℤ)
  | float (text : String)
  | string (s : String)
  | array (items : List Value)
  | object (fields : List (String × Value))

namespace Value

def get (key : String) : Value → Option Value
  | .object fields => (fields.find? fun field ↦ decide (field.1 = key)).map Prod.snd
  | _ => none

def asStr : Value → Option String
  | .string s => some s
  | _ => none

def asBool : Value → Option Bool
  | .bool b => some b
  | _ => none

def asI64 : Value → Option ℤ
  | .integer n => if minI64 ≤ n ∧ n ≤ maxI64 then some n else none
  | _ => none

def asArray : Value → Option (List Value)
  | .array items => some items
  | _ => none

/-- The text in a field. -/
def text (key : String) (value : Value) : Option String := (value.get key).bind asStr

end Value

/-! ## The network -/

structure HttpResponse where
  status : ℕ
  /-- The status as it is displayed, with its reason phrase. -/
  statusLine : String
  /-- What reading the body as JSON gives. -/
  json : Except String Value

def HttpResponse.isSuccess (r : HttpResponse) : Bool := decide (200 ≤ r.status ∧ r.status < 300)

inductive HttpRequest
  | post (url : String) (form : List Char)
  | get (url accessToken : String)

/-- What sending a request gives. -/
abbrev Network := HttpRequest → Except String HttpResponse

/-! ## Configuration -/

/-- One OAuth provider. -/
structure OAuthProviderConfig where
  clientId : String
  clientSecret : String
  authorizeUrl : String
  tokenUrl : String
  userinfoUrl : String
  /-- GitHub only: lists the account's email addresses. -/
  emailsUrl : Option String

def OAuthProviderConfig.google (clientId clientSecret : String) : OAuthProviderConfig where
  clientId := clientId
  clientSecret := clientSecret
  authorizeUrl := "https://accounts.google.com/o/oauth2/v2/auth"
  tokenUrl := "https://oauth2.googleapis.com/token"
  userinfoUrl := "https://openidconnect.googleapis.com/v1/userinfo"
  emailsUrl := none

def OAuthProviderConfig.github (clientId clientSecret : String) : OAuthProviderConfig where
  clientId := clientId
  clientSecret := clientSecret
  authorizeUrl := "https://github.com/login/oauth/authorize"
  tokenUrl := "https://github.com/login/oauth/access_token"
  userinfoUrl := "https://api.github.com/user"
  emailsUrl := some "https://api.github.com/user/emails"

/-- The settings of the provider with these credentials. -/
def Provider.config : Provider → (clientId clientSecret : String) → OAuthProviderConfig
  | .google => .google
  | .github => .github

structure OAuthConfig where
  /-- Public base URL of this API. -/
  publicApiUrl : String
  google : Option OAuthProviderConfig
  github : Option OAuthProviderConfig

namespace OAuthConfig

variable (env : Environment)

def bothOrNeither (name : String) : ConfigError :=
  .invalid name "the client id and the client secret must be set together"

def providerFromEnv (provider : Provider) (idName secretName : String) :
    Except ConfigError (Option OAuthProviderConfig) :=
  match ServerConfig.setVar env idName, ServerConfig.setVar env secretName with
  | some id, some secret => .ok (some (provider.config id secret))
  | none, none => .ok none
  | _, _ => .error (bothOrNeither idName)

def fromEnv (bindPort : ℕ) : Except ConfigError OAuthConfig := do
  let publicApiUrl ← ServerConfig.optional env .ok "PUBLIC_API_URL"
    ("http://localhost:" ++ toString bindPort)
  let google ← providerFromEnv env .google "GOOGLE_CLIENT_ID" "GOOGLE_CLIENT_SECRET"
  let github ← providerFromEnv env .github "GITHUB_CLIENT_ID" "GITHUB_CLIENT_SECRET"
  pure ⟨String.ofList (publicApiUrl.toList.rdropWhile (· = '/')), google, github⟩

end OAuthConfig

/-- Only what we need: identity and a verified email address. -/
def Provider.scopes : Provider → String
  | .google => "openid email profile"
  | .github => "read:user user:email"

structure ProviderClient where
  publicApiUrl : String
  google : Option OAuthProviderConfig
  github : Option OAuthProviderConfig

namespace ProviderClient

def new (config : OAuthConfig) : ProviderClient :=
  ⟨config.publicApiUrl, config.google, config.github⟩

variable (client : ProviderClient)

def settings : Provider → Option OAuthProviderConfig
  | .google => client.google
  | .github => client.github

def isEnabled (provider : Provider) : Bool := (client.settings provider).isSome

/-- The settings, or that the provider is not available. -/
def require (provider : Provider) : Except OAuthError OAuthProviderConfig :=
  match client.settings provider with
  | some settings => .ok settings
  | none => .error .providerUnavailable

theorem settings_of_require {client : ProviderClient} {provider : Provider}
    {settings : OAuthProviderConfig} (h : client.require provider = .ok settings) :
    client.settings provider = some settings := by
  unfold require at h
  split at h
  next hsettings => exact hsettings.trans (congrArg some (Except.ok.inj h))
  next => cases h

/-- The URL to register at the provider as the authorized redirect URL. -/
def redirectUri (provider : Provider) : String :=
  client.publicApiUrl ++ "/api/v1/auth/oauth/" ++ provider.asStr ++ "/callback"

/-! ## The two calls -/

def authorizePairs (settings : OAuthProviderConfig) (provider : Provider)
    (state codeChallenge : String) : List (String × String) :=
  [("response_type", "code"), ("client_id", settings.clientId),
    ("redirect_uri", client.redirectUri provider), ("scope", provider.scopes), ("state", state),
    ("code_challenge", codeChallenge), ("code_challenge_method", "S256"),
    match provider with
    | .google => ("prompt", "select_account")
    | .github => ("allow_signup", "true")]

/-- Where to send the browser to start the sign-in at the provider. -/
def authorizeUrl (parseHost : HostParser) (provider : Provider) (state codeChallenge : String) :
    Except OAuthError String := do
  let settings ← client.require provider
  match Url.parse parseHost settings.authorizeUrl with
  | some url =>
      let pairs := client.authorizePairs settings provider state codeChallenge
      pure (String.ofList (url.appendPairs pairs).serialize)
  | none => throw (.provider "bad authorize URL")

def exchangePairs (settings : OAuthProviderConfig) (provider : Provider)
    (code codeVerifier : String) : List (String × String) :=
  [("grant_type", "authorization_code"), ("code", code),
    ("redirect_uri", client.redirectUri provider), ("client_id", settings.clientId),
    ("client_secret", settings.clientSecret), ("code_verifier", codeVerifier)]

variable (network : Network)

/-- Trades the one-time code for an access token, proving possession of the PKCE verifier. -/
def exchangeCode (provider : Provider) (code codeVerifier : String) :
    Except OAuthError String := do
  let settings ← client.require provider
  let form := formSerialize (client.exchangePairs settings provider code codeVerifier)
  let response ← (network (.post settings.tokenUrl form)).mapError fun e ↦
    .provider ("token request failed: " ++ e)
  let body ← response.json.mapError fun e ↦ .provider ("token response is not JSON: " ++ e)
  -- GitHub reports errors with HTTP 200 and an `error` field.
  let rejected : OAuthError := .provider ("token exchange rejected (" ++ response.statusLine ++
    "): " ++ (body.text "error").getD "no access_token")
  match body.text "access_token" with
  | some token => if response.isSuccess then pure token else throw rejected
  | none => throw rejected

def getJson (url accessToken : String) : Except OAuthError Value := do
  let response ← (network (.get url accessToken)).mapError fun e ↦
    .provider ("profile request failed: " ++ e)
  if response.isSuccess then
    response.json.mapError fun e ↦ .provider ("profile response is not JSON: " ++ e)
  else throw (.provider ("profile request returned " ++ response.statusLine))

/-! ## Profiles -/

def parseGoogleProfile (body : Value) : Except OAuthError ProviderProfile :=
  match body.text "sub" with
  | none => throw (.provider "google profile has no \x60sub\x60")
  | some sub =>
      let verified := match body.get "email_verified" with
        | some (.bool b) => b
        | some (.string s) => decide (s = "true")
        | _ => false
      pure ⟨sub, body.text "email", verified, body.text "name"⟩

/-- The entry of the list is marked. -/
def isMarked (key : String) (entry : Value) : Bool :=
  decide ((entry.get key).bind Value.asBool = some true)

/-- The verified entry to take, the primary one when there is one. -/
def chosenEntry (list : List Value) : Option Value :=
  match (list.filter (isMarked "verified")).find? (isMarked "primary") with
  | some entry => some entry
  | none => list.find? (isMarked "verified")

def parseGithubProfile (user : Value) (emails : Option Value) :
    Except OAuthError ProviderProfile :=
  match (user.get "id").bind Value.asI64 with
  | none => throw (.provider "github profile has no \x60id\x60")
  | some id =>
      let name := match user.text "name" with
        | some name => some name
        | none => user.text "login"
      let verifiedEmail := ((emails.bind Value.asArray).bind chosenEntry).bind (Value.text "email")
      pure ⟨toString id, verifiedEmail, verifiedEmail.isSome, name⟩

def googleProfile (accessToken : String) : Except OAuthError ProviderProfile := do
  let settings ← client.require .google
  let body ← getJson network settings.userinfoUrl accessToken
  parseGoogleProfile body

def githubProfile (accessToken : String) : Except OAuthError ProviderProfile := do
  let settings ← client.require .github
  let user ← getJson network settings.userinfoUrl accessToken
  -- The profile's email may be private or unverified; the emails list says which are verified.
  let emails := settings.emailsUrl.bind fun url ↦ (getJson network url accessToken).toOption
  parseGithubProfile user emails

def fetchProfile (provider : Provider) (accessToken : String) :
    Except OAuthError ProviderProfile :=
  match provider with
  | .google => client.googleProfile network accessToken
  | .github => client.githubProfile network accessToken

/-- What a callback gets from the provider: the exchange, and then the profile. -/
def profile (provider : Provider) (code codeVerifier : String) :
    Except OAuthError ProviderProfile := do
  let accessToken ← client.exchangeCode network provider code codeVerifier
  client.fetchProfile network provider accessToken

/-- The context in which this client is the one that is asked for authorize URLs. -/
def serve (parseHost : HostParser) (cx : Context) : Context :=
  { cx with
    providerEnabled := client.isEnabled
    authorizeUrl := fun provider state challenge ↦
      (client.authorizeUrl parseHost provider state challenge).toOption }

end ProviderClient

end ApiStarter
