import ApiStarter.Freshness
import ApiStarter.Interleave.Bursts
import ApiStarter.Relational.Thinning

/-!
# What the cleanup may delete unseen

The cleanup deletes rows that expired more than an hour ago.  Two servers that
differ in such rows only answer almost every statement alike: a row that does
not match because it expired is not missed, and an hour is as far back as the
links of an account are counted.  What remains are the statements that look at
QR sessions whether or not they expired.
-/

namespace ApiStarter

open Interleave Interleave.Prog Relational

/-- Expired for longer than the cleanup waits. -/
def Overdue (now expiresAt : Time) : Prop := expiresAt < now - Time.hours 1

theorem Overdue.lt {now expiresAt : Time} (h : Overdue now expiresAt) : expiresAt < now :=
  lt_trans h (Int.sub_lt_self now (by decide))

theorem Overdue.mono {now now' expiresAt : Time} (h : Overdue now expiresAt) (hle : now ≤ now') :
    Overdue now' expiresAt :=
  lt_of_lt_of_le h (Int.sub_le_sub_right hle _)

theorem Overdue.not_live {now expiresAt : Time} (h : Overdue now expiresAt) :
    decide (now < expiresAt) = false :=
  decide_eq_false (not_lt_of_gt h.lt)

/-- `t'` is `t` without some of its overdue rows. -/
abbrev LacksOverdue {α κ : Type} {key : α → κ} (expiresAt : α → Time) (now : Time)
    (t t' : Table key) : Prop :=
  t.Thins (fun r ↦ Overdue now (expiresAt r)) t'

/-! ## The tables -/

section Tables

variable {now : Time}

/-- Links are issued with a lifetime, and counted as far back as they are kept. -/
def AuthTokenSql.InTime (now : Time) : AuthTokenSql → Prop
  | .insert _ _ _ _ expiresAt => now ≤ expiresAt
  | .countIssuedSince _ _ since => now - Time.hours 1 ≤ since
  | _ => True

theorem AuthTokenSql.run_thinned {tokens tokens' : Table AuthToken.tokenHash}
    (h : LacksOverdue AuthToken.expiresAt now tokens tokens')
    (hlasting : ∀ t ∈ tokens, t.createdAt ≤ t.expiresAt)
    {q : AuthTokenSql} (hq : q.InTime now)
    (hfree : ∀ v, (Statement.sql (.authTokens q)).Mints (.link v) → tokens.get? v = none) :
    (q.run now tokens').1 = (q.run now tokens).1 ∧
      LacksOverdue AuthToken.expiresAt now (q.run now tokens).2 (q.run now tokens').2 := by
  have hredeem (purpose : TokenPurpose) (hash : String) (t : AuthToken) (_ : t ∈ tokens)
      (ht : Overdue now t.expiresAt) :
      (decide (t.tokenHash = hash) && t.isRedeemable purpose now) = false := by
    simp [AuthToken.isRedeemable, ht.not_live]
  cases q with
  | insert userId purpose hash newEmail expiresAt =>
      obtain ⟨u, u', hu, hu', hthin⟩ := h.insert?
        (r := ⟨userId, purpose, hash, newEmail, expiresAt, none, now⟩) (hfree hash rfl)
      simp only [run, hu, hu']
      exact ⟨trivial, hthin⟩
  | invalidateUnused userId purpose =>
      simp only [run]
      exact ⟨trivial, h.updateWhere fun _ ht ↦ ht⟩
  | findUnused purpose hash =>
      simp only [run, h.find?_eq (hredeem purpose hash)]
      exact ⟨trivial, h⟩
  | claim purpose hash =>
      simp only [run, h.find?_eq (hredeem purpose hash)]
      exact ⟨trivial, h.updateWhere fun _ ht ↦ ht⟩
  | countIssuedSince userId purpose since =>
      have hcount : ∀ t ∈ tokens, Overdue now t.expiresAt → (decide (t.userId = userId) &&
          decide (t.purpose = purpose) && decide (since < t.createdAt)) = false := by
        intro t ht hover
        have hle : t.createdAt ≤ since := (hlasting t ht).trans (hover.le.trans hq)
        simp [not_lt_of_ge hle]
      simp only [run, h.countWhere_eq hcount]
      exact ⟨trivial, h⟩
  | deleteExpired cutoff => exact ⟨rfl, h.deleteWhere _⟩

theorem AuthTokenSql.lasting_run {tokens : Table AuthToken.tokenHash}
    (hlasting : ∀ t ∈ tokens, t.createdAt ≤ t.expiresAt) {q : AuthTokenSql} (hq : q.InTime now) :
    ∀ t ∈ (q.run now tokens).2, t.createdAt ≤ t.expiresAt := by
  intro t ht
  cases hold : tokens.get? t.tokenHash with
  | none =>
      obtain ⟨userId, purpose, newEmail, expiresAt, rfl, heq⟩ :=
        AuthTokenSql.get?_run_none hold (Table.get?_of_mem ht)
      rw [heq]
      exact hq
  | some t₀ =>
      have hle := hlasting t₀ (Table.mem_of_get? hold)
      rcases AuthTokenSql.get?_run hold (Table.get?_of_mem ht) with heq | heq
      · exact heq ▸ hle
      · rw [heq]
        exact hle

theorem OAuthStateSql.run_thinned {states states' : Table OAuthState.stateHash}
    (h : LacksOverdue OAuthState.expiresAt now states states') {q : OAuthStateSql}
    (hfree : ∀ v, (Statement.sql (.oauthStates q)).Mints (.state v) → states.get? v = none) :
    (q.run now states').1 = (q.run now states).1 ∧
      LacksOverdue OAuthState.expiresAt now (q.run now states).2 (q.run now states').2 := by
  cases q with
  | deleteExpired cutoff => exact ⟨rfl, h.deleteWhere _⟩
  | insert row =>
      obtain ⟨u, u', hu, hu', hthin⟩ := h.insert? (hfree row.stateHash rfl)
      simp only [run, hu, hu']
      exact ⟨trivial, hthin⟩
  | claim hash =>
      have hclaim : ∀ s ∈ states, Overdue now s.expiresAt →
          (decide (s.stateHash = hash) && decide (now < s.expiresAt)) = false := by
        intro s _ hover
        simp [hover.not_live]
      simp only [run, h.find?_eq hclaim]
      exact ⟨trivial, h.deleteWhere _⟩

theorem LoginGrantSql.run_thinned {grants grants' : Table LoginGrant.codeHash}
    (h : LacksOverdue LoginGrant.expiresAt now grants grants') {q : LoginGrantSql}
    (hfree : ∀ v, (Statement.sql (.loginGrants q)).Mints (.grant v) → grants.get? v = none) :
    (q.run now grants').1 = (q.run now grants).1 ∧
      LacksOverdue LoginGrant.expiresAt now (q.run now grants).2 (q.run now grants').2 := by
  cases q with
  | deleteExpired cutoff => exact ⟨rfl, h.deleteWhere _⟩
  | insert row =>
      obtain ⟨u, u', hu, hu', hthin⟩ := h.insert? (hfree row.codeHash rfl)
      simp only [run, hu, hu']
      exact ⟨trivial, hthin⟩
  | claim hash =>
      have hclaim : ∀ g ∈ grants, Overdue now g.expiresAt →
          (decide (g.codeHash = hash) && (g.usedAt.isNone && decide (now < g.expiresAt))) =
            false := by
        intro g _ hover
        simp [hover.not_live]
      simp only [run, h.find?_eq hclaim]
      exact ⟨trivial, h.updateWhere fun _ hg ↦ hg⟩

theorem ChallengeSql.run_thinned {challenges challenges' : Table Challenge.id}
    (h : LacksOverdue Challenge.expiresAt now challenges challenges') {q : ChallengeSql}
    (hfree : ∀ v, (Statement.sql (.challenges q)).Mints (.challenge v) →
      challenges.get? v = none) :
    (q.run now challenges').1 = (q.run now challenges).1 ∧
      LacksOverdue Challenge.expiresAt now (q.run now challenges).2 (q.run now challenges').2 := by
  cases q with
  | deleteExpired cutoff => exact ⟨rfl, h.deleteWhere _⟩
  | insert row =>
      obtain ⟨u, u', hu, hu', hthin⟩ := h.insert? (hfree row.id rfl)
      simp only [run, hu, hu']
      exact ⟨trivial, hthin⟩
  | claim id kind userId =>
      have hclaim : ∀ c ∈ challenges, Overdue now c.expiresAt → (decide (c.id = id) &&
          (decide (c.kind = kind) && decide (c.userId = userId) && decide (now < c.expiresAt))) =
            false := by
        intro c _ hover
        simp [hover.not_live]
      simp only [run, h.find?_eq hclaim]
      exact ⟨trivial, h.deleteWhere _⟩

/-- A lookup finds overdue sessions, and a wrong code is written down in them too, unless the
caller knows that the session `ends` later. -/
def QrSql.InTime (ends : String → Time → Prop) (now : Time) : QrSql → Prop
  | .find _ => False
  | .recordWrongCode id => ∃ e, ends id e ∧ now < e
  | _ => True

theorem QrSql.run_thinned {sessions sessions' : Table QrSession.id}
    (h : LacksOverdue QrSession.expiresAt now sessions sessions') {ends : String → Time → Prop}
    (hends : ∀ id e, ends id e → ∀ s, sessions.get? id = some s → s.expiresAt = e) {q : QrSql}
    (hq : q.InTime ends now)
    (hfree : ∀ v, (Statement.sql (.qrSessions q)).Mints (.session v) → sessions.get? v = none) :
    (q.run now sessions').1 = (q.run now sessions).1 ∧
      LacksOverdue QrSession.expiresAt now (q.run now sessions).2 (q.run now sessions').2 := by
  cases q with
  | deleteExpired cutoff => exact ⟨rfl, h.deleteWhere _⟩
  | insert id hash code ip agent expiresAt createdAt =>
      obtain ⟨u, u', hu, hu', hthin⟩ := h.insert?
        (r := ⟨id, hash, code, .pending, none, ip, agent, 0, expiresAt, createdAt⟩) (hfree id rfl)
      simp only [run, hu, hu']
      exact ⟨trivial, hthin⟩
  | find id => exact hq.elim
  | markScanned id userId =>
      have hscan : ∀ s ∈ sessions, Overdue now s.expiresAt →
          (decide (s.id = id) && s.scannable now) = false := by
        intro s _ hover
        simp [QrSession.scannable, hover.not_live]
      simp only [run, h.countWhere_eq hscan]
      exact ⟨trivial, h.updateWhere fun _ hs ↦ hs⟩
  | resolve id userId target =>
      have hresolve : ∀ s ∈ sessions, Overdue now s.expiresAt →
          (decide (s.id = id) && s.resolvable userId now) = false := by
        intro s _ hover
        simp [QrSession.resolvable, hover.not_live]
      simp only [run, h.countWhere_eq hresolve]
      exact ⟨trivial, h.updateWhere fun _ hs ↦ hs⟩
  | recordWrongCode id =>
      have hwrong : ∀ s ∈ sessions, Overdue now s.expiresAt →
          (decide (s.id = id) && decide (s.status = .scanned)) = false := by
        intro s hs hover
        obtain ⟨e, he, hlt⟩ := hq
        by_cases hid : s.id = id
        · have heq : s.expiresAt = e := hends id e he s (Table.get?_eq_some_iff.mpr ⟨hs, hid⟩)
          exact absurd (heq ▸ hlt) (not_lt_of_gt hover.lt)
        · simp [hid]
      simp only [run, h.find?_eq hwrong]
      exact ⟨trivial, h.updateWhere fun _ hs ↦ hs⟩
  | consume id =>
      have hconsume : ∀ s ∈ sessions, Overdue now s.expiresAt →
          (decide (s.id = id) && s.consumable now) = false := by
        intro s _ hover
        simp [QrSession.consumable, hover.not_live]
      simp only [run, h.find?_eq hconsume]
      split
      · exact ⟨rfl, h⟩
      · dsimp only
        exact ⟨rfl, h.updateWhere fun _ hs ↦ hs⟩

end Tables

/-! ## The server -/

/-- Whether a row is kept under the secret; recovery codes never expire. -/
def Secret.stored (v : Secret) (db : Db) : Bool :=
  match v with
  | .link h => (db.authTokens.get? h).isSome
  | .state h => (db.oauthStates.get? h).isSome
  | .grant h => (db.loginGrants.get? h).isSome
  | .challenge id => (db.challenges.get? id).isSome
  | .recoveryCode _ => false
  | .session id => (db.qrSessions.get? id).isSome

/-- `b` is `a` without some of its overdue rows, whatever their jobs are. -/
structure Thinned (a b : Server) : Prop where
  now : b.now = a.now
  draws : b.draws = a.draws
  mails : b.mails = a.mails
  users : b.db.users = a.db.users
  recoveryCodes : b.db.recoveryCodes = a.db.recoveryCodes
  oauthIdentities : b.db.oauthIdentities = a.db.oauthIdentities
  passkeys : b.db.passkeys = a.db.passkeys
  apiKeys : b.db.apiKeys = a.db.apiKeys
  auditLog : b.db.auditLog = a.db.auditLog
  authTokens : LacksOverdue AuthToken.expiresAt a.now a.db.authTokens b.db.authTokens
  oauthStates : LacksOverdue OAuthState.expiresAt a.now a.db.oauthStates b.db.oauthStates
  loginGrants : LacksOverdue LoginGrant.expiresAt a.now a.db.loginGrants b.db.loginGrants
  challenges : LacksOverdue Challenge.expiresAt a.now a.db.challenges b.db.challenges
  qrSessions : LacksOverdue QrSession.expiresAt a.now a.db.qrSessions b.db.qrSessions
  lasting : ∀ t ∈ a.db.authTokens, t.createdAt ≤ t.expiresAt

/-- The statement does not look at overdue rows, nor at the jobs. -/
def Statement.InTime (ends : String → Time → Prop) (now : Time) : Statement → Prop
  | .sql (.authTokens q) => q.InTime now
  | .sql (.qrSessions q) => q.InTime ends now
  | .sql (.jobs _) => False
  | .clock => False
  | _ => True

/-- What the cleanup does: it deletes overdue rows and old jobs. -/
def Statement.Sweeps (now : Time) : Statement → Prop
  | .sql (.authTokens (.deleteExpired cutoff)) => cutoff ≤ now - Time.hours 1
  | .sql (.oauthStates (.deleteExpired cutoff)) => cutoff ≤ now - Time.hours 1
  | .sql (.loginGrants (.deleteExpired cutoff)) => cutoff ≤ now - Time.hours 1
  | .sql (.challenges (.deleteExpired cutoff)) => cutoff ≤ now - Time.hours 1
  | .sql (.qrSessions (.deleteExpired cutoff)) => cutoff ≤ now - Time.hours 1
  | .sql (.jobs _) => True
  | _ => False

theorem exec_now (cx : Context) (q : Statement) (s : Server) :
    ((machine cx).exec q s).2.now = s.now := by
  cases q <;> rfl

namespace Thinned

variable {cx : Context} {a b : Server}

theorem refl {a : Server} (hlasting : ∀ t ∈ a.db.authTokens, t.createdAt ≤ t.expiresAt) :
    Thinned a a where
  now := rfl
  draws := rfl
  mails := rfl
  users := rfl
  recoveryCodes := rfl
  oauthIdentities := rfl
  passkeys := rfl
  apiKeys := rfl
  auditLog := rfl
  authTokens := .refl _
  oauthStates := .refl _
  loginGrants := .refl _
  challenges := .refl _
  qrSessions := .refl _
  lasting := hlasting

/-- A statement that looks at no overdue row cannot tell the two servers apart. -/
theorem exec (cx : Context) (h : Thinned a b) {ends : String → Time → Prop}
    (hends : ∀ id e, ends id e → ∀ s, a.db.qrSessions.get? id = some s → s.expiresAt = e)
    {q : Statement} (hq : q.InTime ends a.now) (hfree : ∀ v, q.Mints v → v.stored a.db = false) :
    ((machine cx).exec q b).1 = ((machine cx).exec q a).1 ∧
      Thinned ((machine cx).exec q a).2 ((machine cx).exec q b).2 := by
  cases q with
  | clock => exact hq.elim
  | draw => exact ⟨h.draws, { h with draws := congrArg (· + 1) h.draws }⟩
  | mail m => exact ⟨rfl, { h with mails := congrArg (m :: ·) h.mails }⟩
  | verifyCode secret email code =>
      exact ⟨congrArg (cx.checkTotp secret email code) h.now, h⟩
  | sql q =>
      cases q with
      | users q =>
          simp only [exec_sql, Sql.run, h.now, h.users]
          exact ⟨trivial, { h with now := rfl, users := rfl }⟩
      | authTokens q =>
          have hkey (v : String) (hv : (Statement.sql (.authTokens q)).Mints (.link v)) :
              a.db.authTokens.get? v = none := by
            simpa [Secret.stored] using hfree (.link v) hv
          obtain ⟨hsame, hthin⟩ := AuthTokenSql.run_thinned h.authTokens h.lasting hq hkey
          simp only [exec_sql, Sql.run, h.now]
          exact ⟨hsame, { h with
            now := rfl
            authTokens := hthin
            lasting := AuthTokenSql.lasting_run h.lasting hq }⟩
      | recoveryCodes q =>
          simp only [exec_sql, Sql.run, h.now, h.recoveryCodes]
          exact ⟨trivial, { h with now := rfl, recoveryCodes := rfl }⟩
      | apiKeys q =>
          simp only [exec_sql, Sql.run, h.apiKeys]
          exact ⟨trivial, { h with apiKeys := rfl }⟩
      | oauthStates q =>
          have hkey (v : String) (hv : (Statement.sql (.oauthStates q)).Mints (.state v)) :
              a.db.oauthStates.get? v = none := by
            simpa [Secret.stored] using hfree (.state v) hv
          obtain ⟨hsame, hthin⟩ := OAuthStateSql.run_thinned h.oauthStates hkey
          simp only [exec_sql, Sql.run, h.now]
          exact ⟨hsame, { h with now := rfl, oauthStates := hthin }⟩
      | oauthIdentities q =>
          simp only [exec_sql, Sql.run, h.now, h.oauthIdentities]
          exact ⟨trivial, { h with now := rfl, oauthIdentities := rfl }⟩
      | loginGrants q =>
          have hkey (v : String) (hv : (Statement.sql (.loginGrants q)).Mints (.grant v)) :
              a.db.loginGrants.get? v = none := by
            simpa [Secret.stored] using hfree (.grant v) hv
          obtain ⟨hsame, hthin⟩ := LoginGrantSql.run_thinned h.loginGrants hkey
          simp only [exec_sql, Sql.run, h.now]
          exact ⟨hsame, { h with now := rfl, loginGrants := hthin }⟩
      | passkeys q =>
          simp only [exec_sql, Sql.run, h.now, h.passkeys]
          exact ⟨trivial, { h with now := rfl, passkeys := rfl }⟩
      | challenges q =>
          have hkey (v : String) (hv : (Statement.sql (.challenges q)).Mints (.challenge v)) :
              a.db.challenges.get? v = none := by
            simpa [Secret.stored] using hfree (.challenge v) hv
          obtain ⟨hsame, hthin⟩ := ChallengeSql.run_thinned h.challenges hkey
          simp only [exec_sql, Sql.run, h.now]
          exact ⟨hsame, { h with now := rfl, challenges := hthin }⟩
      | qrSessions q =>
          have hkey (v : String) (hv : (Statement.sql (.qrSessions q)).Mints (.session v)) :
              a.db.qrSessions.get? v = none := by
            simpa [Secret.stored] using hfree (.session v) hv
          obtain ⟨hsame, hthin⟩ := QrSql.run_thinned h.qrSessions hends hq hkey
          simp only [exec_sql, Sql.run, h.now]
          exact ⟨hsame, { h with now := rfl, qrSessions := hthin }⟩
      | jobs q => exact hq.elim
      | recordAudit actor action target details =>
          simp only [exec_sql, Sql.run, h.now, h.auditLog]
          exact ⟨trivial, { h with now := rfl, auditLog := rfl }⟩
      | signInMethodCount id =>
          have hcount : b.db.signInMethodCount id = a.db.signInMethodCount id := by
            simp only [Db.signInMethodCount, Db.linkedIdentities, Db.registeredPasskeys, h.users,
              h.oauthIdentities, h.passkeys]
          exact ⟨hcount, h⟩

/-- The cleanup takes more overdue rows away. -/
theorem sweep (h : Thinned a b) {q : Statement} (hq : q.Sweeps a.now) :
    Thinned a ((machine cx).exec q b).2 := by
  have older {cutoff : Time} (hcutoff : cutoff ≤ a.now - Time.hours 1) (e : Time)
      (he : decide (e < cutoff) = true) : Overdue a.now e :=
    lt_of_lt_of_le (of_decide_eq_true he) hcutoff
  unfold Statement.Sweeps at hq
  split at hq
  · exact { h with authTokens := h.authTokens.sweep fun t ↦ older hq t.expiresAt }
  · exact { h with oauthStates := h.oauthStates.sweep fun s ↦ older hq s.expiresAt }
  · exact { h with loginGrants := h.loginGrants.sweep fun g ↦ older hq g.expiresAt }
  · exact { h with challenges := h.challenges.sweep fun c ↦ older hq c.expiresAt }
  · exact { h with qrSessions := h.qrSessions.sweep fun s ↦ older hq s.expiresAt }
  · exact { h with }
  · exact hq.elim

theorem moved (cx : Context) (h : Thinned a b) (ticks : ℕ) :
    Thinned ((machine cx).env ticks a) ((machine cx).env ticks b) := by
  have hle : a.now ≤ a.now + (ticks : ℤ) :=
    Int.le_add_of_nonneg_right (Int.natCast_nonneg ticks)
  exact { h with
    now := congrArg (· + (ticks : ℤ)) h.now
    authTokens := h.authTokens.mono fun _ ht ↦ ht.mono hle
    oauthStates := h.oauthStates.mono fun _ hs ↦ hs.mono hle
    loginGrants := h.loginGrants.mono fun _ hg ↦ hg.mono hle
    challenges := h.challenges.mono fun _ hc ↦ hc.mono hle
    qrSessions := h.qrSessions.mono fun _ hs ↦ hs.mono hle }

end Thinned

end ApiStarter
