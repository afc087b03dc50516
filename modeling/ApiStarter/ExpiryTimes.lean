import ApiStarter.Chrono.Times
import ApiStarter.Context

/-!
# When things expire

Lifetimes are read from the environment as 64-bit numbers, and only that of a QR
code is held to a range.  Some become durations when the services are built,
the lockout does at a wrong password, and all are added to the current time when
a link, a session or a lock is made.  Numbers that are large enough make one of
these steps panic.
-/

namespace ApiStarter

open Chrono

inductive ConfigError
  | missing (name : String)
  | invalid (name reason : String)
  deriving DecidableEq

/-- `QrLoginConfig`, whose lifetime is held to a range. -/
structure QrLoginConfig where
  ttlSecs : Int64
  bounded : 30 ≤ ttlSecs.toInt ∧ ttlSecs.toInt ≤ 900

/-- What `Config::from_env` reads that times are computed from. -/
structure ServerConfig where
  jwtTtlSecs : Int64
  passwordResetTtlMinutes : Int64
  emailVerificationTtlHours : Int64
  emailChangeTtlMinutes : Int64
  maxFailedLoginAttempts : Int32
  accountLockoutMinutes : Int64
  qrLogin : QrLoginConfig

/-! ## Reading the environment -/

/-- The environment's variables. -/
abbrev Environment := String → Option String

namespace ServerConfig

/-- `<integer>::from_str`: the digits are added up until one is none or the number is too large. -/
def digits (sign lo hi : ℤ) : ℤ → List Char → Except String ℤ
  | n, [] => .ok n
  | n, c :: rest =>
      if c.isDigit then
        let n := 10 * n + sign * (c.toNat - 48)
        if n < lo then .error "number too small to fit in target type"
        else if hi < n then .error "number too large to fit in target type"
        else digits sign lo hi n rest
      else .error "invalid digit found in string"

def parseInt (lo hi : ℤ) (raw : String) : Except String ℤ :=
  match raw.toList with
  | [] => .error "cannot parse integer from empty string"
  | ['+'] | ['-'] => .error "invalid digit found in string"
  | '+' :: rest => digits 1 lo hi 0 rest
  | '-' :: rest => digits (-1) lo hi 0 rest
  | rest => digits 1 lo hi 0 rest

def parseI64 (raw : String) : Except String Int64 := (parseInt minI64 maxI64 raw).map Int64.ofInt

def parseI32 (raw : String) : Except String Int32 :=
  (parseInt (-2147483648) 2147483647 raw).map Int32.ofInt

variable (env : Environment)

/-- Blank counts as unset. -/
def setVar (name : String) : Option String := (env name).filter fun v ↦ trim v ≠ ""

/-- A variable with a default. -/
def optional {α : Type} (parse : String → Except String α) (name : String) (default : α) :
    Except ConfigError α :=
  match setVar env name with
  | some raw => (parse raw).mapError (.invalid name)
  | none => .ok default

def qrFromEnv : Except ConfigError QrLoginConfig := do
  let ttlSecs ← optional env parseI64 "QR_LOGIN_TTL_SECS" 120
  if h : 30 ≤ ttlSecs.toInt ∧ ttlSecs.toInt ≤ 900 then .ok ⟨ttlSecs, h⟩
  else .error (.invalid "QR_LOGIN_TTL_SECS" "must be between 30 and 900")

/-- `Config::from_env`, as far as times go. -/
def fromEnv : Except ConfigError ServerConfig := do
  let jwtSecret ← match setVar env "JWT_SECRET" with
    | some secret => .ok secret
    | none => .error (.missing "JWT_SECRET")
  if jwtSecret.utf8ByteSize < 32 then
    .error (.invalid "JWT_SECRET" "must be at least 32 characters")
  let jwtTtlSecs ← optional env parseI64 "JWT_TTL_SECS" 3600
  let passwordResetTtlMinutes ← optional env parseI64 "PASSWORD_RESET_TTL_MINUTES" 30
  let emailVerificationTtlHours ← optional env parseI64 "EMAIL_VERIFICATION_TTL_HOURS" 24
  let emailChangeTtlMinutes ← optional env parseI64 "EMAIL_CHANGE_TTL_MINUTES" 60
  let maxFailedLoginAttempts ← optional env parseI32 "MAX_FAILED_LOGIN_ATTEMPTS" 5
  let accountLockoutMinutes ← optional env parseI64 "ACCOUNT_LOCKOUT_MINUTES" 15
  let qrLogin ← qrFromEnv env
  .ok ⟨jwtTtlSecs, passwordResetTtlMinutes, emailVerificationTtlHours, emailChangeTtlMinutes,
    maxFailedLoginAttempts, accountLockoutMinutes, qrLogin⟩

end ServerConfig

/-! ## Computing times -/

/-- The durations that the services are built with. -/
structure Lifetimes where
  resetTtl : TimeDelta
  invitationTtl : TimeDelta
  verificationTtl : TimeDelta
  changeTtl : TimeDelta
  qrTtl : TimeDelta

/-- The services are built at start-up. -/
def Lifetimes.new (config : ServerConfig) : Option Lifetimes := do
  let resetTtl ← TimeDelta.minutes config.passwordResetTtlMinutes
  let invitationTtl ← TimeDelta.hours config.emailVerificationTtlHours
  let verificationTtl ← TimeDelta.hours config.emailVerificationTtlHours
  let changeTtl ← TimeDelta.minutes config.emailChangeTtlMinutes
  let qrTtl ← TimeDelta.seconds config.qrLogin.ttlSecs.toInt
  some ⟨resetTtl, invitationTtl, verificationTtl, changeTtl, qrTtl⟩

/-- Until when an account is locked after too many wrong passwords. -/
def lockoutDeadline (config : ServerConfig) (now : DateTime) : Option DateTime := do
  let lockout ← TimeDelta.minutes config.accountLockoutMinutes
  now.add lockout

/-- The `exp` of a token issued now. -/
def tokenExpiry (config : ServerConfig) (now : DateTime) : Option Int64 :=
  asI64 (now.timestamp + config.jwtTtlSecs.toInt)

/-- Everything that is computed from the configured lifetimes. -/
structure Expiries where
  lockedUntil : DateTime
  resetExpiresAt : DateTime
  invitationExpiresAt : DateTime
  verificationExpiresAt : DateTime
  changeExpiresAt : DateTime
  qrExpiresAt : DateTime
  exp : Int64

/-- The times that requests served now compute, `none` when building the services or one of the
computations panics or overflows. -/
def expiries (config : ServerConfig) (now : DateTime) : Option Expiries := do
  let lifetimes ← Lifetimes.new config
  let lockedUntil ← lockoutDeadline config now
  let resetExpiresAt ← now.add lifetimes.resetTtl
  let invitationExpiresAt ← now.add lifetimes.invitationTtl
  let verificationExpiresAt ← now.add lifetimes.verificationTtl
  let changeExpiresAt ← now.add lifetimes.changeTtl
  let qrExpiresAt ← now.add lifetimes.qrTtl
  let exp ← tokenExpiry config now
  some ⟨lockedUntil, resetExpiresAt, invitationExpiresAt, verificationExpiresAt, changeExpiresAt,
    qrExpiresAt, exp⟩

/-! ## When they can be computed -/

/-- The date so many seconds from now exists. -/
def Reaches (now : DateTime) (secs : ℤ) : Prop :=
  firstSecond * nanosPerSec ≤ now.nanos + secs * nanosPerSec ∧
    now.nanos + secs * nanosPerSec < (lastSecond + 1) * nanosPerSec

section Times

variable {config : ServerConfig} {now : DateTime}

/-- A unit's duration, added to the current time. -/
theorem exists_add_ofUnit_iff {secs : ℤ} {n : Int64} :
    (∃ d, TimeDelta.ofUnit secs n = some d ∧ ∃ t, now.add d = some t) ↔
      Reaches now (n.toInt * secs) := by
  constructor
  · rintro ⟨d, hd, t, ht⟩
    have hbounded := t.bounded
    rw [DateTime.add_eq_some.mp ht, TimeDelta.ofUnit_eq_some.mp hd] at hbounded
    exact hbounded
  · intro hreaches
    have hnow := now.bounded
    have hbounded : -(maxI64 * 1000000) ≤ n.toInt * secs * nanosPerSec ∧
        n.toInt * secs * nanosPerSec ≤ maxI64 * 1000000 := by
      simp only [Reaches, firstSecond, lastSecond, nanosPerSec, maxI64] at hreaches hnow ⊢
      omega
    refine ⟨⟨_, hbounded⟩, TimeDelta.ofUnit_eq_some.mpr rfl, ⟨_, hreaches⟩, ?_⟩
    exact DateTime.add_eq_some.mpr rfl

/-- The lifetime of a QR code can always be added. -/
theorem exists_add_qr (hnow : 0 ≤ now.nanos) (hreaches : Reaches now 900) (qr : QrLoginConfig) :
    ∃ d, TimeDelta.seconds qr.ttlSecs.toInt = some d ∧ ∃ t, now.add d = some t := by
  obtain ⟨hlow, hhigh⟩ := qr.bounded
  have hbounded : -(maxI64 * 1000000) ≤ qr.ttlSecs.toInt * nanosPerSec ∧
      qr.ttlSecs.toInt * nanosPerSec ≤ maxI64 * 1000000 := by
    simp only [nanosPerSec, maxI64]
    omega
  have hdate : firstSecond * nanosPerSec ≤ now.nanos + qr.ttlSecs.toInt * nanosPerSec ∧
      now.nanos + qr.ttlSecs.toInt * nanosPerSec < (lastSecond + 1) * nanosPerSec := by
    simp only [Reaches, firstSecond, lastSecond, nanosPerSec] at hreaches ⊢
    omega
  exact ⟨⟨_, hbounded⟩, TimeDelta.seconds_eq_some.mpr rfl, ⟨_, hdate⟩, DateTime.add_eq_some.mpr rfl⟩

theorem exists_tokenExpiry_iff :
    (∃ exp, tokenExpiry config now = some exp) ↔
      minI64 ≤ now.timestamp + config.jwtTtlSecs.toInt ∧
        now.timestamp + config.jwtTtlSecs.toInt ≤ maxI64 := by
  unfold tokenExpiry
  constructor
  · rintro ⟨exp, hexp⟩
    rw [← asI64_eq_some.mp hexp]
    exact toInt_mem exp
  · intro hfits
    exact ⟨_, if_pos hfits⟩

theorem Lifetimes.new_eq_some {lifetimes : Lifetimes} : Lifetimes.new config = some lifetimes ↔
    TimeDelta.minutes config.passwordResetTtlMinutes = some lifetimes.resetTtl ∧
    TimeDelta.hours config.emailVerificationTtlHours = some lifetimes.invitationTtl ∧
    TimeDelta.hours config.emailVerificationTtlHours = some lifetimes.verificationTtl ∧
    TimeDelta.minutes config.emailChangeTtlMinutes = some lifetimes.changeTtl ∧
    TimeDelta.seconds config.qrLogin.ttlSecs.toInt = some lifetimes.qrTtl := by
  simp only [Lifetimes.new, Option.bind_eq_bind, Option.bind_eq_some_iff, Option.some.injEq]
  constructor
  · rintro ⟨reset, hreset, invitation, hinvitation, verification, hverification, change, hchange,
      qr, hqr, rfl⟩
    exact ⟨hreset, hinvitation, hverification, hchange, hqr⟩
  · rintro ⟨hreset, hinvitation, hverification, hchange, hqr⟩
    exact ⟨_, hreset, _, hinvitation, _, hverification, _, hchange, _, hqr, rfl⟩

theorem expiries_eq_some {e : Expiries} : expiries config now = some e ↔
    ∃ lifetimes, Lifetimes.new config = some lifetimes ∧
      lockoutDeadline config now = some e.lockedUntil ∧
      now.add lifetimes.resetTtl = some e.resetExpiresAt ∧
      now.add lifetimes.invitationTtl = some e.invitationExpiresAt ∧
      now.add lifetimes.verificationTtl = some e.verificationExpiresAt ∧
      now.add lifetimes.changeTtl = some e.changeExpiresAt ∧
      now.add lifetimes.qrTtl = some e.qrExpiresAt ∧ tokenExpiry config now = some e.exp := by
  simp only [expiries, Option.bind_eq_bind, Option.bind_eq_some_iff, Option.some.injEq]
  constructor
  · rintro ⟨lifetimes, hnew, lock, hlock, reset, hreset, invitation, hinvitation, verification,
      hverification, change, hchange, qr, hqr, exp, hexp, rfl⟩
    exact ⟨lifetimes, hnew, hlock, hreset, hinvitation, hverification, hchange, hqr, hexp⟩
  · rintro ⟨lifetimes, hnew, hlock, hreset, hinvitation, hverification, hchange, hqr, hexp⟩
    exact ⟨lifetimes, hnew, _, hlock, _, hreset, _, hinvitation, _, hverification, _, hchange, _,
      hqr, _, hexp, rfl⟩

/-- Everything is computed when each of the times is. -/
theorem exists_expiries_iff (hnow : 0 ≤ now.nanos) (hqr : Reaches now 900) :
    (∃ e, expiries config now = some e) ↔
      Reaches now (config.accountLockoutMinutes.toInt * 60) ∧
      Reaches now (config.passwordResetTtlMinutes.toInt * 60) ∧
      Reaches now (config.emailVerificationTtlHours.toInt * 3600) ∧
      Reaches now (config.emailChangeTtlMinutes.toInt * 60) ∧
      ∃ exp, tokenExpiry config now = some exp := by
  simp only [← exists_add_ofUnit_iff]
  constructor
  · rintro ⟨e, he⟩
    obtain ⟨lifetimes, hnew, hlock, hreset, -, hverification, hchange, -, hexp⟩ :=
      expiries_eq_some.mp he
    obtain ⟨hresetTtl, -, hverificationTtl, hchangeTtl, -⟩ := Lifetimes.new_eq_some.mp hnew
    obtain ⟨lockout, hlockout, hlocked⟩ := Option.bind_eq_some_iff.mp hlock
    exact ⟨⟨lockout, hlockout, _, hlocked⟩, ⟨_, hresetTtl, _, hreset⟩,
      ⟨_, hverificationTtl, _, hverification⟩, ⟨_, hchangeTtl, _, hchange⟩, _, hexp⟩
  · rintro ⟨⟨lockout, hlockout, lock, hlock⟩, ⟨reset, hreset, resetAt, hresetAt⟩,
      ⟨verification, hverification, verifiedAt, hverifiedAt⟩,
      ⟨change, hchange, changeAt, hchangeAt⟩, exp, hexp⟩
    obtain ⟨qr, hqr, qrAt, hqrAt⟩ := exists_add_qr hnow hqr config.qrLogin
    let lifetimes : Lifetimes := ⟨reset, verification, verification, change, qr⟩
    have hnew : Lifetimes.new config = some lifetimes :=
      Lifetimes.new_eq_some.mpr ⟨hreset, hverification, hverification, hchange, hqr⟩
    refine ⟨⟨lock, resetAt, verifiedAt, verifiedAt, changeAt, qrAt, exp⟩, ?_⟩
    apply expiries_eq_some.mpr
    exact ⟨lifetimes, hnew, Option.bind_eq_some_iff.mpr ⟨lockout, hlockout, hlock⟩, hresetAt,
      hverifiedAt, hverifiedAt, hchangeAt, hqrAt, hexp⟩

theorem seconds_nanos (n : ℤ) : 1000 * Time.seconds n = n * nanosPerSec := by
  have hsum : 1000 * (n * 1000000) = n * 1000000000 := by omega
  exact hsum

theorem minutes_nanos (n : ℤ) : 1000 * Time.minutes n = n * 60 * nanosPerSec := seconds_nanos _

theorem hours_nanos (n : ℤ) : 1000 * Time.hours n = n * 3600 * nanosPerSec := by
  rw [Time.hours, minutes_nanos]
  have hunits : n * 60 * 60 = n * 3600 := by omega
  rw [hunits]

/-- What is computed is what the sums come to, without bounds. -/
theorem expiries_exact {e : Expiries} (h : expiries config now = some e) :
    e.lockedUntil.nanos = now.nanos + 1000 * Time.minutes config.accountLockoutMinutes.toInt ∧
    e.resetExpiresAt.nanos = now.nanos + 1000 * Time.minutes config.passwordResetTtlMinutes.toInt ∧
    e.invitationExpiresAt.nanos =
      now.nanos + 1000 * Time.hours config.emailVerificationTtlHours.toInt ∧
    e.verificationExpiresAt.nanos =
      now.nanos + 1000 * Time.hours config.emailVerificationTtlHours.toInt ∧
    e.changeExpiresAt.nanos = now.nanos + 1000 * Time.minutes config.emailChangeTtlMinutes.toInt ∧
    e.qrExpiresAt.nanos = now.nanos + 1000 * Time.seconds config.qrLogin.ttlSecs.toInt ∧
    e.exp.toInt = now.timestamp + config.jwtTtlSecs.toInt := by
  obtain ⟨lifetimes, hnew, hlock, hreset, hinvitation, hverification, hchange, hqr, hexp⟩ :=
    expiries_eq_some.mp h
  obtain ⟨hresetTtl, hinvitationTtl, hverificationTtl, hchangeTtl, hqrTtl⟩ :=
    Lifetimes.new_eq_some.mp hnew
  obtain ⟨lockout, hlockout, hlocked⟩ := Option.bind_eq_some_iff.mp hlock
  -- the deadline of a unit's duration is the sum
  have hsum {secs : ℤ} {n : Int64} {d : TimeDelta} {t : DateTime}
      (hd : TimeDelta.ofUnit secs n = some d) (ht : now.add d = some t) :
      t.nanos = now.nanos + n.toInt * secs * nanosPerSec := by
    rw [DateTime.add_eq_some.mp ht, TimeDelta.ofUnit_eq_some.mp hd]
  have hqrSum : e.qrExpiresAt.nanos = now.nanos + config.qrLogin.ttlSecs.toInt * nanosPerSec := by
    rw [DateTime.add_eq_some.mp hqr, TimeDelta.seconds_eq_some.mp hqrTtl]
  rw [hsum hlockout hlocked, hsum hresetTtl hreset, hsum hinvitationTtl hinvitation,
    hsum hverificationTtl hverification, hsum hchangeTtl hchange, hqrSum, asI64_eq_some.mp hexp]
  simp only [minutes_nanos, hours_nanos, seconds_nanos, and_self]

end Times

/-! ## Moderate lifetimes -/

/-- The year 3000 begins, in seconds from the epoch. -/
def year3000 : ℤ := 32503680000

/-- The seconds can be added to every current time before the year 3000. -/
def FitsDates (secs : ℤ) : Prop := firstSecond ≤ secs ∧ secs ≤ lastSecond + 1 - year3000

structure ServerConfig.Moderate (config : ServerConfig) : Prop where
  lockout : FitsDates (config.accountLockoutMinutes.toInt * 60)
  reset : FitsDates (config.passwordResetTtlMinutes.toInt * 60)
  verification : FitsDates (config.emailVerificationTtlHours.toInt * 3600)
  change : FitsDates (config.emailChangeTtlMinutes.toInt * 60)
  token : config.jwtTtlSecs.toInt ≤ maxI64 + 1 - year3000

theorem forall_reaches_iff {secs : ℤ} :
    (∀ now : DateTime, 0 ≤ now.nanos → now.nanos < year3000 * nanosPerSec → Reaches now secs) ↔
      FitsDates secs := by
  constructor
  · intro h
    have hfirst := h ⟨0, by decide⟩ (by decide) (by decide)
    have hlast := h ⟨year3000 * nanosPerSec - 1, by decide⟩ (by decide) (by decide)
    simp only [Reaches, FitsDates, firstSecond, lastSecond, nanosPerSec, year3000] at hfirst hlast ⊢
    omega
  · intro hfits now hlow hhigh
    simp only [Reaches, FitsDates, firstSecond, lastSecond, nanosPerSec, year3000] at hfits hhigh ⊢
    omega

/-- All times are computed at every current time before the year 3000 exactly when the configured
lifetimes are moderate. -/
theorem expiries_computed_iff (config : ServerConfig) :
    (∀ now : DateTime, 0 ≤ now.nanos → now.nanos < year3000 * nanosPerSec →
      ∃ e, expiries config now = some e) ↔ config.Moderate := by
  have hqr : ∀ now : DateTime, 0 ≤ now.nanos → now.nanos < year3000 * nanosPerSec →
      Reaches now 900 := forall_reaches_iff.mpr ⟨by decide, by decide⟩
  constructor
  · intro h
    have hparts (now : DateTime) (hlow : 0 ≤ now.nanos)
        (hhigh : now.nanos < year3000 * nanosPerSec) :=
      (exists_expiries_iff hlow (hqr now hlow hhigh)).mp (h now hlow hhigh)
    constructor
    · exact forall_reaches_iff.mp fun now hlow hhigh ↦ (hparts now hlow hhigh).1
    · exact forall_reaches_iff.mp fun now hlow hhigh ↦ (hparts now hlow hhigh).2.1
    · exact forall_reaches_iff.mp fun now hlow hhigh ↦ (hparts now hlow hhigh).2.2.1
    · exact forall_reaches_iff.mp fun now hlow hhigh ↦ (hparts now hlow hhigh).2.2.2.1
    · have hlast := hparts ⟨year3000 * nanosPerSec - 1, by decide⟩ (by decide) (by decide)
      have hexp := (exists_tokenExpiry_iff.mp hlast.2.2.2.2).2
      have htimestamp : (year3000 * nanosPerSec - 1) / nanosPerSec = year3000 - 1 := by decide
      rw [DateTime.timestamp, htimestamp] at hexp
      omega
  · intro h now hlow hhigh
    have hreaches {secs : ℤ} (hfits : FitsDates secs) : Reaches now secs :=
      forall_reaches_iff.mpr hfits now hlow hhigh
    have htoken : ∃ exp, tokenExpiry config now = some exp := by
      apply exists_tokenExpiry_iff.mpr
      have hbounds := toInt_mem config.jwtTtlSecs
      have hmost := h.token
      simp only [DateTime.timestamp, nanosPerSec, year3000, minI64, maxI64] at hhigh hbounds hmost ⊢
      omega
    apply (exists_expiries_iff hlow (hqr now hlow hhigh)).mpr
    exact ⟨hreaches h.lockout, hreaches h.reset, hreaches h.verification, hreaches h.change, htoken⟩

namespace ExpirySample

/-- An environment with the longest lockout there is. -/
def env : Environment
  | "JWT_SECRET" => some "0123456789abcdef0123456789abcdef"
  | "ACCOUNT_LOCKOUT_MINUTES" => some "9223372036854775807"
  | _ => none

/-- The defaults, but for the lockout. -/
def config : ServerConfig := ⟨3600, 30, 24, 60, 5, 9223372036854775807, 120, by decide⟩

def epoch : DateTime := ⟨0, by decide⟩

end ExpirySample

/-- The server starts with the longest lockout, and a wrong password makes it panic. -/
theorem longest_lockout_panics :
    ServerConfig.fromEnv ExpirySample.env = .ok ExpirySample.config ∧
      (Lifetimes.new ExpirySample.config).isSome = true ∧
        lockoutDeadline ExpirySample.config ExpirySample.epoch = none := by
  exact ⟨rfl, by decide, by decide⟩

end ApiStarter
