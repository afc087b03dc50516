import ApiStarter.Schema
import ApiStarter.Text.Lowercase

/-!
# Configuration and foreign calls

The settings the handlers read, and the calls whose results this repository
does not decide: hashing, random values, password scoring, TOTP, WebAuthn and
the OAuth provider.
-/

namespace ApiStarter

structure Settings where
  requireVerifiedEmail : Bool
  checkPasswordBreaches : Bool
  maxFailedLoginAttempts : ℤ
  accountLockoutMinutes : ℤ
  passwordResetTtlMinutes : ℤ
  emailVerificationTtlHours : ℤ
  emailChangeTtlMinutes : ℤ
  jwtTtlSecs : ℤ
  qrTtlSecs : ℤ
  frontendUrl : String
  providerEnabled : Provider → Bool

/-- A decoded `webauthn_rs::Passkey`, as far as the handlers look into it. -/
structure Passkey where
  credId : String
  counter : ℕ

structure AuthenticationResult where
  credId : String
  counter : ℕ

/-- What we learn about the person from the provider. -/
structure ProviderProfile where
  providerUserId : String
  email : Option String
  /-- The provider vouches that the person controls `email`. -/
  emailVerified : Bool
  name : Option String

/-- What the provider client's calls give a callback, `none` where one fails. -/
structure ProviderCalls where
  /-- The access token that the code is traded for. -/
  exchangeCode : (code codeVerifier : String) → Option String
  fetchProfile : (accessToken : String) → Option ProviderProfile

/-- Whatever the code, the callback is told this in the end. -/
def ProviderCalls.answering (answer : Option ProviderProfile) : ProviderCalls where
  exchangeCode _ _ := some ""
  fetchProfile _ := answer

/-- Random values are indexed by the number of draws made before. -/
structure Context extends Settings where
  randomToken : ℕ → String
  randomUuid : ℕ → Uuid
  randomVerificationCode : ℕ → String
  randomTotpSecret : ℕ → String
  randomRecoveryCodes : ℕ → List String
  randomSalt : ℕ → String
  sha256 : String → String
  pkceChallenge : String → String
  simple : Uuid → String
  toLowercase : String → String
  argon2 : (salt password : String) → Option String
  verifyPassword : (password storedHash : String) → Bool
  tooWeak : (password : String) → (knownInputs : List String) → Option String
  appearedInBreach : String → Bool
  /-- QR code and provisioning URI of a TOTP secret; `none` when they cannot be built. -/
  provisioningUri : (secret email : String) → Option String
  checkTotp : (secret email code : String) → Time → Bool
  authorizeUrl : Provider → (state challenge : String) → Option String
  /-- The QR code of a payload as SVG. -/
  renderQr : (payload : String) → Option String
  startRegistration : (draw : ℕ) → (userId : Uuid) → (email displayName : String) →
    (exclude : List String) → Option String
  startAuthentication : (draw : ℕ) → Option String
  /-- The JSON decodes as the state of a ceremony of this kind. -/
  decodesState : ChallengeKind → (stateJson : String) → Bool
  finishRegistration : (credential state : String) → Option Passkey
  identify : (credential : String) → Option Uuid
  finishAuthentication : (credential state : String) → List Passkey → Option AuthenticationResult
  updateCredential : Passkey → AuthenticationResult → Option Passkey
  encodePasskey : Passkey → String
  decodePasskey : String → Option Passkey
  /-- What a database error says. -/
  databaseError : String

/-- Unicode `White_Space`, what `str::trim` removes. -/
def isWhiteSpace (c : Char) : Bool :=
  let n := c.toNat
  (0x09 ≤ n && n ≤ 0x0D) || n = 0x20 || n = 0x85 || n = 0xA0 || n = 0x1680 ||
    (0x2000 ≤ n && n ≤ 0x200A) || n = 0x2028 || n = 0x2029 || n = 0x202F || n = 0x205F ||
      n = 0x3000

/-- `str::trim` -/
def trim (s : String) : String :=
  String.ofList ((s.toList.dropWhile isWhiteSpace).reverse.dropWhile isWhiteSpace).reverse

theorem trim_eq (raw : String) : trim raw = String.ofList (Text.strip isWhiteSpace raw.toList) :=
  rfl

theorem trim_trim (raw : String) : trim (trim raw) = trim raw := by
  simp only [trim_eq, String.toList_ofList, (Text.trimmed_strip _ _).strip_eq]

/-- `s.chars().take(n).collect()` -/
def takeChars (n : ℕ) (s : String) : String := String.ofList (s.toList.take n)

/-- Emails are compared case-insensitively; store them trimmed and lowercased. -/
def Context.normalizeEmail (cx : Context) (raw : String) : String := cx.toLowercase (trim raw)

/-- A concrete context to evaluate runs in: values drawn are numbered, and hashes and codes
are readable. -/
def Context.sample : Context where
  requireVerifiedEmail := false
  checkPasswordBreaches := false
  maxFailedLoginAttempts := 5
  accountLockoutMinutes := 15
  passwordResetTtlMinutes := 30
  emailVerificationTtlHours := 24
  emailChangeTtlMinutes := 60
  jwtTtlSecs := 3600
  qrTtlSecs := 120
  frontendUrl := "https://app"
  providerEnabled _ := true
  randomToken n := "token" ++ toString n ++ "-with-some-more-characters-to-it"
  randomUuid n := 1000 + n
  randomVerificationCode n := toString (1000 + n)
  randomTotpSecret n := "SECRET" ++ toString (100000 + n)
  randomRecoveryCodes n := (List.range 8).map fun i ↦ toString n ++ "-" ++ toString i
  randomSalt n := toString n
  sha256 raw := "sha256:" ++ raw
  pkceChallenge verifier := "S256:" ++ verifier
  simple id := toString id
  toLowercase raw := raw
  argon2 _ password := some ("argon2:" ++ password)
  verifyPassword password storedHash := decide (storedHash = "argon2:" ++ password)
  tooWeak _ _ := none
  appearedInBreach _ := false
  provisioningUri secret email := some ("otpauth://totp/" ++ email ++ "?secret=" ++ secret)
  checkTotp secret _ code _ := decide (secret = "SECRET" ++ code)
  authorizeUrl provider state challenge :=
    some ("https://" ++ provider.asStr ++ "?state=" ++ state ++ "&code_challenge=" ++ challenge)
  renderQr payload := some ("<svg>" ++ payload ++ "</svg>")
  startRegistration n _ _ _ _ := some ("registration" ++ toString n)
  startAuthentication n := some ("authentication" ++ toString n)
  decodesState _ _ := true
  finishRegistration credential _ := some ⟨credential, 0⟩
  identify _ := none
  finishAuthentication _ _ _ := none
  updateCredential _ _ := none
  encodePasskey passkey := passkey.credId
  decodePasskey json := some ⟨json, 0⟩
  databaseError := "pool timed out while waiting for an open connection"

end ApiStarter
