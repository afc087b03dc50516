import ApiStarter.Context
import ApiStarter.Interleave.Runs
import ApiStarter.Repositories.Auth
import ApiStarter.Repositories.Jobs
import ApiStarter.Repositories.SignIn
import ApiStarter.Repositories.Users

/-!
# Statements

What a handler can ask of the world: one SQL statement or transaction, the
clock, a random draw, an email, a check of a TOTP code.  A SQL statement works
on its own table and may fail without writing.
-/

namespace ApiStarter

open Interleave Relational

inductive Sql
  | users (q : UsersSql)
  | authTokens (q : AuthTokenSql)
  | recoveryCodes (q : RecoveryCodeSql)
  | apiKeys (q : ApiKeySql)
  | oauthStates (q : OAuthStateSql)
  | oauthIdentities (q : OAuthIdentitySql)
  | loginGrants (q : LoginGrantSql)
  | passkeys (q : PasskeySql)
  | challenges (q : ChallengeSql)
  | qrSessions (q : QrSql)
  | jobs (q : JobSql)
  | recordAudit (actorUserId : Uuid) (action : String) (targetUserId : Option Uuid)
      (details : AuditDetails)
  | signInMethodCount (id : Uuid)

@[reducible] def Sql.Res : Sql → Type
  | .users q => q.Res
  | .authTokens q => q.Res
  | .recoveryCodes q => q.Res
  | .apiKeys q => q.Res
  | .oauthStates q => q.Res
  | .oauthIdentities q => q.Res
  | .loginGrants q => q.Res
  | .passkeys q => q.Res
  | .challenges q => q.Res
  | .qrSessions q => q.Res
  | .jobs q => q.Res
  | .recordAudit .. => Unit
  | .signInMethodCount _ => ℕ

def Db.linkedIdentities (db : Db) (id : Uuid) : ℕ :=
  db.oauthIdentities.countWhere fun i ↦ decide (i.userId = id)

def Db.registeredPasskeys (db : Db) (id : Uuid) : ℕ :=
  db.passkeys.countWhere fun p ↦ decide (p.userId = id)

def User.passwordMethods (u : User) : ℕ := if u.passwordSet then 1 else 0

/-- `NULL` when there is no such row, which does not decode. -/
def Db.signInMethodCount (db : Db) (id : Uuid) : Option ℕ :=
  (db.users.get? id).map fun u ↦
    u.passwordMethods + db.linkedIdentities id + db.registeredPasskeys id

def Sql.run (now : Time) (db : Db) : (q : Sql) → Option q.Res × Db
  | .users q => ((q.run now db.users).1, { db with users := (q.run now db.users).2 })
  | .authTokens q =>
      ((q.run now db.authTokens).1, { db with authTokens := (q.run now db.authTokens).2 })
  | .recoveryCodes q =>
      ((q.run now db.recoveryCodes).1, { db with recoveryCodes := (q.run now db.recoveryCodes).2 })
  | .apiKeys q => ((q.run db.apiKeys).1, { db with apiKeys := (q.run db.apiKeys).2 })
  | .oauthStates q =>
      ((q.run now db.oauthStates).1, { db with oauthStates := (q.run now db.oauthStates).2 })
  | .oauthIdentities q =>
      ((q.run now db.oauthIdentities).1,
        { db with oauthIdentities := (q.run now db.oauthIdentities).2 })
  | .loginGrants q =>
      ((q.run now db.loginGrants).1, { db with loginGrants := (q.run now db.loginGrants).2 })
  | .passkeys q => ((q.run now db.passkeys).1, { db with passkeys := (q.run now db.passkeys).2 })
  | .challenges q =>
      ((q.run now db.challenges).1, { db with challenges := (q.run now db.challenges).2 })
  | .qrSessions q =>
      ((q.run now db.qrSessions).1, { db with qrSessions := (q.run now db.qrSessions).2 })
  | .jobs q => ((q.run now db.jobs).1, { db with jobs := (q.run now db.jobs).2 })
  | .recordAudit actorUserId action targetUserId details =>
      (some (), { db with
        auditLog := ⟨actorUserId, action, targetUserId, details, now⟩ :: db.auditLog })
  | .signInMethodCount id => (db.signInMethodCount id, db)

inductive Statement
  | sql (q : Sql)
  | clock
  | draw
  | mail (m : Mail)
  /-- `totp::verify_code`, which reads the clock itself. -/
  | verifyCode (base32Secret accountEmail code : String)

/-- `none` is a database error. -/
@[reducible] def Statement.Res : Statement → Type
  | .sql q => Option q.Res
  | .clock => Time
  | .draw => ℕ
  | .mail _ => Unit
  | .verifyCode .. => Bool

def Statement.exec (cx : Context) : (q : Statement) → Server → q.Res × Server
  | .sql q, s => ((q.run s.now s.db).1, { s with db := (q.run s.now s.db).2 })
  | .clock, s => (s.now, s)
  | .draw, s => (s.draws, { s with draws := s.draws + 1 })
  | .mail m, s => ((), { s with mails := m :: s.mails })
  | .verifyCode secret email code, s => (cx.checkTotp secret email code s.now, s)

def Statement.fault : (q : Statement) → Option q.Res
  | .sql _ => some none
  | .clock => none
  | .draw => none
  | .mail _ => none
  | .verifyCode .. => none

/-- The application's machine: the environment lets time pass. -/
def machine (cx : Context) : Machine Statement.Res Server ℕ where
  exec := Statement.exec cx
  fault := Statement.fault
  env ticks s := { s with now := s.now + ticks }

section Simp

variable (cx : Context) (s : Server)

@[simp] theorem exec_sql (q : Sql) : (machine cx).exec (.sql q) s =
    ((q.run s.now s.db).1, { s with db := (q.run s.now s.db).2 }) := rfl
@[simp] theorem exec_clock : (machine cx).exec .clock s = (s.now, s) := rfl
@[simp] theorem exec_draw :
    (machine cx).exec .draw s = (s.draws, { s with draws := s.draws + 1 }) := rfl
@[simp] theorem exec_mail (m : Mail) :
    (machine cx).exec (.mail m) s = ((), { s with mails := m :: s.mails }) := rfl
@[simp] theorem exec_verifyCode (secret email code : String) :
    (machine cx).exec (.verifyCode secret email code) s =
      (cx.checkTotp secret email code s.now, s) := rfl
@[simp] theorem env_eq (ticks : ℕ) :
    (machine cx).env ticks s = { s with now := s.now + ticks } := rfl

end Simp

end ApiStarter
