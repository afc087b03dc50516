import ApiStarter.Freshness
import ApiStarter.Links
import ApiStarter.QrSessions

/-!
# Secrets work once

Links, OAuth states, login grants, challenges, recovery codes and QR sessions
differ in how they are spent: some rows are marked, others deleted.  All of them
have terms fixed when they are issued, and what is open under some terms is
opened by issuing it and closed by consuming or withdrawing it.
-/

namespace ApiStarter

open Interleave Interleave.Prog Relational

/-! ## Terms -/

/-- What a secret is good for. -/
inductive Use
  | redeem (purpose : TokenPurpose)
  | authorize
  | exchange
  | ceremony (kind : ChallengeKind) (userId : Option Uuid)
  | secondFactor (userId : Uuid)
  | collect
  deriving DecidableEq

structure Terms where
  use : Use
  /-- Recovery codes have no expiry. -/
  expiresAt : Option Time
  deriving DecidableEq

/-- The terms under which the secret is still open. -/
def Secret.openTerms (v : Secret) (db : Db) : List Terms :=
  match v with
  | .link h => ((db.authTokens.get? h).filter (·.usedAt.isNone)).toList.map
      fun t ↦ ⟨.redeem t.purpose, some t.expiresAt⟩
  | .state h => (db.oauthStates.get? h).toList.map fun r ↦ ⟨.authorize, some r.expiresAt⟩
  | .grant h => ((db.loginGrants.get? h).filter (·.usedAt.isNone)).toList.map
      fun g ↦ ⟨.exchange, some g.expiresAt⟩
  | .challenge id => (db.challenges.get? id).toList.map
      fun c ↦ ⟨.ceremony c.kind c.userId, some c.expiresAt⟩
  | .recoveryCode h =>
      (db.recoveryCodes.filter fun c ↦ decide (c.codeHash = h) && c.usedAt.isNone).map
        fun c ↦ ⟨.secondFactor c.userId, none⟩
  | .session id => ((db.qrSessions.get? id).filter QrSession.isOpen).toList.map
      fun r ↦ ⟨.collect, some r.expiresAt⟩

/-- The statement issues the secret under these terms. -/
def Statement.issues : Statement → Secret → Option Terms
  | .sql (.authTokens (.insert _ purpose hash _ expiresAt)), .link h =>
      if hash = h then some ⟨.redeem purpose, some expiresAt⟩ else none
  | .sql (.oauthStates (.insert row)), .state h =>
      if row.stateHash = h then some ⟨.authorize, some row.expiresAt⟩ else none
  | .sql (.loginGrants (.insert row)), .grant h =>
      if row.codeHash = h then some ⟨.exchange, some row.expiresAt⟩ else none
  | .sql (.challenges (.insert row)), .challenge id =>
      if row.id = id then some ⟨.ceremony row.kind row.userId, some row.expiresAt⟩ else none
  | .sql (.recoveryCodes (.replaceAll userId _ hashes)), .recoveryCode h =>
      if h ∈ hashes then some ⟨.secondFactor userId, none⟩ else none
  | .sql (.qrSessions (.insert id _ _ _ _ expiresAt _)), .session id' =>
      if id = id' then some ⟨.collect, some expiresAt⟩ else none
  | _, _ => none

/-- The statement claims the secret for this use, and the claim succeeds. -/
inductive Statement.Consumes (s : Server) : Statement → Secret → Use → Prop
  | link {purpose : TokenPurpose} {hash : String} {t : AuthToken}
      (h : ((AuthTokenSql.claim purpose hash).run s.now s.db.authTokens).1 = some (some t)) :
      Consumes s (.sql (.authTokens (.claim purpose hash))) (.link hash) (.redeem purpose)
  | state {hash : String} {r : OAuthState}
      (h : ((OAuthStateSql.claim hash).run s.now s.db.oauthStates).1 = some (some r)) :
      Consumes s (.sql (.oauthStates (.claim hash))) (.state hash) .authorize
  | grant {hash : String} {userId : Uuid}
      (h : ((LoginGrantSql.claim hash).run s.now s.db.loginGrants).1 = some (some userId)) :
      Consumes s (.sql (.loginGrants (.claim hash))) (.grant hash) .exchange
  | challenge {id : String} {kind : ChallengeKind} {userId : Option Uuid} {state : String}
      (h : ((ChallengeSql.claim id kind userId).run s.now s.db.challenges).1 = some (some state)) :
      Consumes s (.sql (.challenges (.claim id kind userId))) (.challenge id)
        (.ceremony kind userId)
  | recoveryCode {userId : Uuid} {hash : String}
      (h : ((RecoveryCodeSql.claim userId hash).run s.now s.db.recoveryCodes).1 = some true) :
      Consumes s (.sql (.recoveryCodes (.claim userId hash))) (.recoveryCode hash)
        (.secondFactor userId)
  | session {id : String} {userId : Uuid}
      (h : ((QrSql.consume id).run s.now s.db.qrSessions).1 = some (some userId)) :
      Consumes s (.sql (.qrSessions (.consume id))) (.session id) .collect

section Statements

variable {cx : Context} {v : Secret} {t : Terms} {q : Statement} {s : Server} {use : Use}

theorem mints_of_issues (h : q.issues v = some t) : q.Mints v := by
  unfold Statement.issues at h
  split at h
  case h_7 => cases h
  all_goals
    split at h
    next hv => exact hv
    next => cases h

theorem mem_openTerms_link {h : String} : t ∈ (Secret.link h).openTerms s.db ↔
    ∃ r, s.db.authTokens.get? h = some r ∧ r.usedAt = none ∧
      ⟨.redeem r.purpose, some r.expiresAt⟩ = t := by
  simp [Secret.openTerms, Option.filter_eq_some_iff, and_assoc]

theorem mem_openTerms_state {h : String} : t ∈ (Secret.state h).openTerms s.db ↔
    ∃ r, s.db.oauthStates.get? h = some r ∧ ⟨.authorize, some r.expiresAt⟩ = t := by
  simp [Secret.openTerms]

theorem mem_openTerms_grant {h : String} : t ∈ (Secret.grant h).openTerms s.db ↔
    ∃ g, s.db.loginGrants.get? h = some g ∧ g.usedAt = none ∧
      ⟨.exchange, some g.expiresAt⟩ = t := by
  simp [Secret.openTerms, Option.filter_eq_some_iff, and_assoc]

theorem mem_openTerms_challenge {id : String} : t ∈ (Secret.challenge id).openTerms s.db ↔
    ∃ c, s.db.challenges.get? id = some c ∧
      ⟨.ceremony c.kind c.userId, some c.expiresAt⟩ = t := by
  simp [Secret.openTerms]

theorem mem_openTerms_recoveryCode {h : String} :
    t ∈ (Secret.recoveryCode h).openTerms s.db ↔
      ∃ c ∈ s.db.recoveryCodes, c.codeHash = h ∧ c.usedAt = none ∧
        ⟨.secondFactor c.userId, none⟩ = t := by
  simp [Secret.openTerms, and_assoc]

theorem mem_openTerms_session {id : String} : t ∈ (Secret.session id).openTerms s.db ↔
    sessionIs id (fun r ↦ r.isOpen && decide ((⟨.collect, some r.expiresAt⟩ : Terms) = t)) s := by
  simp [Secret.openTerms, Option.filter_eq_some_iff, and_assoc, sessionIs]

/-- Nothing opens under some terms but by being issued under them. -/
theorem issues_of_rises (h : Rises (machine cx) (fun s ↦ t ∈ v.openTerms s.db) q s) :
    q.issues v = some t := by
  obtain ⟨hbefore, hafter⟩ := h
  cases v with
  | link hash =>
      have hsame : ¬(q.exec cx s).2.db.authTokens = s.db.authTokens := fun heq ↦
        hbefore (mem_openTerms_link.mpr (heq ▸ mem_openTerms_link.mp hafter))
      obtain ⟨r, hr, hunused, rfl⟩ := mem_openTerms_link.mp hafter
      cases q with
      | sql q =>
          cases q with
          | authTokens q =>
              cases hold : s.db.authTokens.get? hash with
              | none =>
                  obtain ⟨userId, purpose, newEmail, expiresAt, rfl, rfl⟩ :=
                    AuthTokenSql.get?_run_none hold hr
                  simp [Statement.issues]
              | some r₀ =>
                  exfalso
                  rcases AuthTokenSql.get?_run hold hr with rfl | rfl
                  · exact hbefore (mem_openTerms_link.mpr ⟨r, hold, hunused, rfl⟩)
                  · simp [AuthToken.markUsed] at hunused
          | _ => exact absurd rfl hsame
      | _ => exact absurd rfl hsame
  | state hash =>
      have hsame : ¬(q.exec cx s).2.db.oauthStates = s.db.oauthStates := fun heq ↦
        hbefore (mem_openTerms_state.mpr (heq ▸ mem_openTerms_state.mp hafter))
      obtain ⟨r, hr, rfl⟩ := mem_openTerms_state.mp hafter
      cases q with
      | sql q =>
          cases q with
          | oauthStates q =>
              have hkey : r.stateHash = hash := Table.key_of_get? hr
              rcases OAuthStateSql.get?_run hr with hold | rfl
              · exact absurd (mem_openTerms_state.mpr ⟨r, hold, rfl⟩) hbefore
              · simp [Statement.issues, hkey]
          | _ => exact absurd rfl hsame
      | _ => exact absurd rfl hsame
  | grant hash =>
      have hsame : ¬(q.exec cx s).2.db.loginGrants = s.db.loginGrants := fun heq ↦
        hbefore (mem_openTerms_grant.mpr (heq ▸ mem_openTerms_grant.mp hafter))
      obtain ⟨g, hg, hunused, rfl⟩ := mem_openTerms_grant.mp hafter
      cases q with
      | sql q =>
          cases q with
          | loginGrants q =>
              have hkey : g.codeHash = hash := Table.key_of_get? hg
              rcases LoginGrantSql.get?_run hg hunused with hold | rfl
              · exact absurd (mem_openTerms_grant.mpr ⟨g, hold, hunused, rfl⟩) hbefore
              · simp [Statement.issues, hkey]
          | _ => exact absurd rfl hsame
      | _ => exact absurd rfl hsame
  | challenge id =>
      have hsame : ¬(q.exec cx s).2.db.challenges = s.db.challenges := fun heq ↦
        hbefore (mem_openTerms_challenge.mpr (heq ▸ mem_openTerms_challenge.mp hafter))
      obtain ⟨c, hc, rfl⟩ := mem_openTerms_challenge.mp hafter
      cases q with
      | sql q =>
          cases q with
          | challenges q =>
              have hkey : c.id = id := Table.key_of_get? hc
              rcases ChallengeSql.get?_run hc with hold | rfl
              · exact absurd (mem_openTerms_challenge.mpr ⟨c, hold, rfl⟩) hbefore
              · simp [Statement.issues, hkey]
          | _ => exact absurd rfl hsame
      | _ => exact absurd rfl hsame
  | recoveryCode hash =>
      have hsame : ¬(q.exec cx s).2.db.recoveryCodes = s.db.recoveryCodes := fun heq ↦
        hbefore (mem_openTerms_recoveryCode.mpr (heq ▸ mem_openTerms_recoveryCode.mp hafter))
      obtain ⟨c, hc, hhash, hunused, rfl⟩ := mem_openTerms_recoveryCode.mp hafter
      cases q with
      | sql q =>
          cases q with
          | recoveryCodes q =>
              rcases RecoveryCodeSql.mem_run hc hunused with hold | ⟨_, hashes, rfl, hmem⟩
              · exact absurd (mem_openTerms_recoveryCode.mpr ⟨c, hold, hhash, hunused, rfl⟩) hbefore
              · simp [Statement.issues, ← hhash, hmem]
          | _ => exact absurd rfl hsame
      | _ => exact absurd rfl hsame
  | session id =>
      have hrise : Rises (machine cx) (sessionIs id fun r ↦ r.isOpen &&
          decide ((⟨.collect, some r.expiresAt⟩ : Terms) = t)) q s :=
        ⟨fun h ↦ hbefore (mem_openTerms_session.mpr h), mem_openTerms_session.mp hafter⟩
      rcases sessionIs_rises hrise with ⟨hash, code, ip, agent, expires, created, rfl, hp⟩ |
        ⟨q', r, r', rfl, -, hp, hmove, hp'⟩
      · simp only [Bool.and_eq_true, decide_eq_true_eq] at hp
        simp [Statement.issues, hp.2]
      · exfalso
        cases hmove with
        | stays => simp [hp] at hp'
        | scanned u hvalid => simp_all [QrSession.isOpen, QrSession.scannable]
        | resolved u target hvalid => simp_all [QrSession.isOpen, QrSession.resolvable]
        | miscoded hvalid => simp_all [QrSession.isOpen, QrSession.withWrongCode]
        | consumed hvalid => simp [QrSession.isOpen] at hp'

/-- A claim that succeeds found the secret open for its use and in time, and closes it. -/
theorem closes_of_consumes (cx : Context) (h : q.Consumes s v use) :
    ∃ t ∈ v.openTerms s.db, t.use = use ∧ (∀ x ∈ t.expiresAt, s.now < x) ∧
      t ∉ v.openTerms ((machine cx).exec q s).2.db := by
  cases h with
  | link h =>
      obtain ⟨r, hget, hvalid, -⟩ := AuthTokenSql.claim_eq_some h
      have hkey : r.tokenHash = _ := Table.key_of_get? hget
      have hredeem := hvalid
      simp only [AuthToken.isRedeemable, Bool.and_eq_true, decide_eq_true_eq,
        Option.isNone_iff_eq_none] at hvalid
      obtain ⟨⟨hpurpose, hunused⟩, hlive⟩ := hvalid
      refine ⟨_, mem_openTerms_link.mpr ⟨r, hget, hunused, rfl⟩, by rw [hpurpose], by simpa, ?_⟩
      intro hopen
      obtain ⟨r', hr', hunused', -⟩ := mem_openTerms_link.mp hopen
      simp only [exec_sql, Sql.run, AuthTokenSql.run] at hr'
      rw [Table.get?_updateWhere_some hget] at hr'
      simp only [hkey, hredeem, decide_true, Bool.and_self, if_true, Option.some.injEq] at hr'
      simp [← hr', AuthToken.markUsed] at hunused'
  | state h =>
      obtain ⟨hget, hlive, hgone⟩ := OAuthStateSql.claim_eq_some h
      refine ⟨_, mem_openTerms_state.mpr ⟨_, hget, rfl⟩, rfl, by simpa, fun hopen ↦ ?_⟩
      obtain ⟨r', hr', -⟩ := mem_openTerms_state.mp hopen
      simp [exec_sql, Sql.run, hgone] at hr'
  | grant h =>
      obtain ⟨g, hget, -, hunused, hlive, hused⟩ := LoginGrantSql.claim_eq_some h
      refine ⟨_, mem_openTerms_grant.mpr ⟨g, hget, hunused, rfl⟩, rfl, by simpa, fun hopen ↦ ?_⟩
      obtain ⟨g', hg', hunused', -⟩ := mem_openTerms_grant.mp hopen
      simp only [exec_sql, Sql.run, hused, Option.some.injEq] at hg'
      simp [← hg'] at hunused'
  | challenge h =>
      obtain ⟨c, hget, -, rfl, rfl, hlive, hgone⟩ := ChallengeSql.claim_eq_some h
      refine ⟨_, mem_openTerms_challenge.mpr ⟨c, hget, rfl⟩, rfl, by simpa, fun hopen ↦ ?_⟩
      obtain ⟨c', hc', -⟩ := mem_openTerms_challenge.mp hopen
      simp [exec_sql, Sql.run, hgone] at hc'
  | @recoveryCode u hash h =>
      have hany : s.db.recoveryCodes.any (RecoveryCode.matches u hash) = true := Option.some.inj h
      obtain ⟨c, hc, hmatch⟩ := List.any_eq_true.mp hany
      simp only [RecoveryCode.matches, Bool.and_eq_true, decide_eq_true_eq,
        Option.isNone_iff_eq_none] at hmatch
      obtain ⟨⟨rfl, rfl⟩, hunused⟩ := hmatch
      refine ⟨_, mem_openTerms_recoveryCode.mpr ⟨c, hc, rfl, hunused, rfl⟩, rfl, by simp, ?_⟩
      intro hopen
      obtain ⟨c', hc', hhash, hunused', huse⟩ := mem_openTerms_recoveryCode.mp hopen
      obtain ⟨c₀, -, rfl⟩ := List.mem_map.mp hc'
      split at hunused'
      · cases hunused'
      · next hother =>
        simp only [hother] at hhash huse
        simp_all [RecoveryCode.matches]
  | session h =>
      obtain ⟨r, hget, hvalid, -⟩ := QrSql.consume_eq_some h
      obtain ⟨-, hends⟩ := ends_open_of_consumable cx hget hvalid
      simp only [QrSession.consumable, Bool.and_eq_true, decide_eq_true_eq] at hvalid
      refine ⟨⟨.collect, some r.expiresAt⟩, mem_openTerms_session.mpr ⟨r, hget, ?_⟩, rfl,
        by simpa using hvalid.2, fun hopen ↦ hends ?_⟩
      · simp [QrSession.isOpen, hvalid.1]
      · obtain ⟨r', hr', hopen'⟩ := mem_openTerms_session.mp hopen
        exact ⟨r', hr', ((Bool.and_eq_true _ _).mp hopen').1⟩

end Statements

/-! ## All runs -/

/-- The event consumed the secret. -/
def Consumed (v : Secret) (use : Use) (e : AppEvent) : Prop :=
  e.Ran fun q s ↦ q.Consumes s v use

/-- The event found the secret open and closed it, by consuming, retiring, replacing or
deleting its row. -/
def Withdrawn (cx : Context) (v : Secret) (e : AppEvent) : Prop :=
  e.Ran fun q s ↦ ∃ t ∈ v.openTerms s.db, t ∉ v.openTerms ((machine cx).exec q s).2.db

/-- One event at most consumes the secret; it is open for that use from the start or was issued
for it, has not expired and was not withdrawn before. -/
structure HonouredOnce (cx : Context) (v : Secret) (s : Server) (h : List AppEvent) : Prop where
  once : Once (fun e ↦ ∃ use, Consumed v use e) h
  asIssued : ∀ later e earlier use, h = later ++ e :: earlier → Consumed v use e →
    ∃ expiresAt, (⟨use, expiresAt⟩ ∈ v.openTerms s.db ∨
        ∃ i k q b, .ran i k q b ∈ earlier ∧ q.issues v = some ⟨use, expiresAt⟩) ∧
      ∀ x ∈ expiresAt, e.store.now < x
  notWithdrawn : h.Pairwise fun e₂ e₁ ↦ ¬(Withdrawn cx v e₁ ∧ ∃ use, Consumed v use e₂)

/-- Fresh secrets are distinct: no two of the first draws give this one, and none does when it
is out already. -/
structure Context.FreshFor (cx : Context) (v : Secret) (s : Server) (draws : ℕ) : Prop where
  distinct : cx.DistinctDraws v draws
  unique : ∀ t₁ ∈ v.openTerms s.db, ∀ t₂ ∈ v.openTerms s.db, t₁ = t₂
  notDrawn : v.openTerms s.db ≠ [] → ∀ n < draws, ¬cx.Source n v

section Runs

variable {cx : Context} {v : Secret} {s : Server} {c : AppConfig}

theorem withdrawn_of_consumed {e : AppEvent} (h : ∃ use, Consumed v use e) : Withdrawn cx v e := by
  obtain ⟨use, hconsumed⟩ := h
  cases e with
  | answered => exact hconsumed.elim
  | ran i k q b =>
      obtain ⟨t, ht, -, -, hclosed⟩ := closes_of_consumes cx hconsumed
      exact ⟨t, ht, hclosed⟩

/-- Issuing or invalidating retires the open links of the account and purpose. -/
theorem withdrawn_of_invalidateUnused {i : ℕ} {k : Request} {hash : String} {r : AuthToken}
    (hr : s.db.authTokens.get? hash = some r) (hunused : r.usedAt = none) :
    Withdrawn cx (.link hash)
      (.ran i k (.sql (.authTokens (.invalidateUnused r.userId r.purpose))) s) := by
  refine ⟨_, mem_openTerms_link.mpr ⟨r, hr, hunused, rfl⟩, fun hopen ↦ ?_⟩
  obtain ⟨r', hr', hunused', -⟩ := mem_openTerms_link.mp hopen
  have hget := (AuthTokenSql.get?_invalidateUnused s.now hr r.userId r.purpose).symm.trans hr'
  simp only [AuthToken.isUnused, hunused, decide_true, Option.isNone_none, Bool.and_self, if_true,
    Option.some.injEq] at hget
  simp [← hget, AuthToken.markUsed] at hunused'

/-- A new batch of recovery codes, or turning two-factor off, takes the old codes away. -/
theorem withdrawn_of_renewed {i : ℕ} {k : Request} {hash : String} {r : RecoveryCode}
    {q : RecoveryCodeSql} (hr : r ∈ s.db.recoveryCodes) (hhash : r.codeHash = hash)
    (hunused : r.usedAt = none) (hq : q = .deleteAll r.userId ∨
      ∃ found hashes, q = .replaceAll r.userId found hashes ∧ hash ∈ found ∧ hash ∉ hashes) :
    Withdrawn cx (.recoveryCode hash) (.ran i k (.sql (.recoveryCodes q)) s) := by
  refine ⟨_, mem_openTerms_recoveryCode.mpr ⟨r, hr, hhash, hunused, rfl⟩, fun hopen ↦ ?_⟩
  obtain ⟨r', hr', hhash', -, huse⟩ := mem_openTerms_recoveryCode.mp hopen
  obtain huser : r'.userId = r.userId := by simpa using huse
  rcases hq with rfl | ⟨found, hashes, rfl, hfound, hnot⟩
  · simpa [huser] using (List.mem_filter.mp hr').2
  · rcases List.mem_append.mp hr' with hold | hnew
    · simpa [huser, hhash', hfound] using (List.mem_filter.mp hold).2
    · obtain ⟨h, hmem, rfl⟩ := List.mem_map.mp hnew
      exact hnot (hhash' ▸ hmem)

variable (hc : Reached cx s c)
include hc

/-- What is open was open at the start or was issued in the run. -/
theorem Reached.issued_of_open {later earlier : List AppEvent} {e : AppEvent}
    (hhist : c.world.history = later ++ e :: earlier) {t : Terms}
    (ht : t ∈ v.openTerms e.store.db) :
    t ∈ v.openTerms s.db ∨ ∃ i k q b, .ran i k q b ∈ earlier ∧ q.issues v = some t := by
  by_cases hstart : t ∈ v.openTerms s.db
  · exact .inl hstart
  obtain ⟨c', hc', hworld⟩ := hc.past hhist
  obtain ⟨mid, rise, before, hbefore, hrise, -⟩ := hc'.rises_of_live (fun s ↦ t ∈ v.openTerms s.db)
    (fun _ _ ↦ Iff.rfl) hstart (by rwa [hworld])
  have hsplit : earlier = mid ++ rise :: before :=
    (congrArg World.history hworld).symm.trans hbefore
  cases rise with
  | answered => exact hrise.elim
  | ran i k q b => exact .inr ⟨i, k, q, b, by simp [hsplit], issues_of_rises hrise⟩

variable (hfresh : cx.FreshFor v s c.world.store.draws)
include hfresh

theorem Reached.not_issued_of_start {t t' : Terms} (ht : t ∈ v.openTerms s.db) {i : ℕ} {k : Request}
    {q : Statement} {b : Server} (hmem : .ran i k q b ∈ c.world.history) :
      q.issues v ≠ some t' := by
  intro hissue
  obtain ⟨n, hn, hsource⟩ := hc.source_of_mints hmem (mints_of_issues hissue)
  exact hfresh.notDrawn (List.ne_nil_of_mem ht) n hn hsource

/-- A secret is never open under two different terms. -/
theorem Reached.terms_eq {e₁ e₂ : AppEvent} (he₁ : e₁ ∈ c.world.history)
    (he₂ : e₂ ∈ c.world.history) {t₁ t₂ : Terms} (ht₁ : t₁ ∈ v.openTerms e₁.store.db)
    (ht₂ : t₂ ∈ v.openTerms e₂.store.db) : t₁ = t₂ := by
  obtain ⟨l₁, r₁, h₁⟩ := List.append_of_mem he₁
  obtain ⟨l₂, r₂, h₂⟩ := List.append_of_mem he₂
  rcases hc.issued_of_open h₁ ht₁ with hold₁ | ⟨i₁, k₁, q₁, b₁, hmem₁, hissue₁⟩
  · rcases hc.issued_of_open h₂ ht₂ with hold₂ | ⟨i₂, k₂, q₂, b₂, hmem₂, hissue₂⟩
    · exact hfresh.unique t₁ hold₁ t₂ hold₂
    · have hin₂ : .ran i₂ k₂ q₂ b₂ ∈ c.world.history := by simp [h₂, hmem₂]
      exact absurd hissue₂ (hc.not_issued_of_start hfresh hold₁ hin₂)
  · have hin₁ : .ran i₁ k₁ q₁ b₁ ∈ c.world.history := by simp [h₁, hmem₁]
    rcases hc.issued_of_open h₂ ht₂ with hold₂ | ⟨i₂, k₂, q₂, b₂, hmem₂, hissue₂⟩
    · exact absurd hissue₁ (hc.not_issued_of_start hfresh hold₂ hin₁)
    · have heq := (hc.minted_once hfresh.distinct).eq hin₁
        (by simp [h₂, hmem₂] : .ran i₂ k₂ q₂ b₂ ∈ c.world.history)
        (mints_of_issues hissue₁) (mints_of_issues hissue₂)
      cases heq
      exact Option.some.inj (hissue₁.symm.trans hissue₂)

/-- Nothing consumes a secret after it was withdrawn. -/
theorem Reached.not_consumed_of_withdrawn :
    c.world.history.Pairwise fun e₂ e₁ ↦ ¬(Withdrawn cx v e₁ ∧ ∃ use, Consumed v use e₂) := by
  refine pairwise_of_split fun later e₂ mid e₁ earlier hhist ↦ ?_
  rintro ⟨hwithdrawn, use, hconsumed⟩
  cases e₁ with
  | answered => exact hwithdrawn
  | ran i₁ k₁ q₁ b₁ =>
  cases e₂ with
  | answered => exact hconsumed
  | ran i₂ k₂ q₂ b₂ =>
      obtain ⟨t, ht₁, hclosed⟩ := hwithdrawn
      obtain ⟨t₂, ht₂, -⟩ := closes_of_consumes cx hconsumed
      obtain rfl := hc.terms_eq hfresh (by simp [hhist] : .ran i₁ k₁ q₁ b₁ ∈ c.world.history)
        (by simp [hhist] : .ran i₂ k₂ q₂ b₂ ∈ c.world.history) ht₁ ht₂
      -- it was issued again, although it had been out before
      obtain ⟨rise, hmid, hrise⟩ := hc.rises_between (fun s : Server ↦ t ∈ v.openTerms s.db)
        (fun _ _ ↦ Iff.rfl) hhist hclosed ht₂
      cases rise with
      | answered => exact hrise
      | ran i k q b =>
      have hissue := issues_of_rises hrise
      have hmem : .ran i k q b ∈ c.world.history := by simp [hhist, hmid]
      have hsplit : c.world.history = (later ++ .ran i₂ k₂ q₂ b₂ :: mid) ++
          .ran i₁ k₁ q₁ b₁ :: earlier := by simpa using hhist
      rcases hc.issued_of_open hsplit ht₁ with hstart | ⟨i₀, k₀, q₀, b₀, hearlier, hissue₀⟩
      · exact hc.not_issued_of_start hfresh hstart hmem hissue
      · have honce := hc.minted_once hfresh.distinct
        rw [hhist] at honce
        have hpair := (List.pairwise_append.mp
          (List.pairwise_cons.mp (List.pairwise_append.mp honce).2.1).2).2.2
        exact hpair _ hmid _ (List.mem_cons_of_mem _ hearlier)
          ⟨mints_of_issues hissue₀, mints_of_issues hissue⟩

theorem secret_honoured_once : HonouredOnce cx v s c.world.history := by
  have hwithdrawn := hc.not_consumed_of_withdrawn hfresh
  refine ⟨hwithdrawn.imp fun hnot hboth ↦ hnot ⟨withdrawn_of_consumed hboth.1, hboth.2⟩,
    fun later e earlier use hhist hconsumed ↦ ?_, hwithdrawn⟩
  cases e with
  | answered => exact hconsumed.elim
  | ran i k q b =>
      obtain ⟨⟨_, expiresAt⟩, ht, rfl, hlive, -⟩ := closes_of_consumes cx hconsumed
      exact ⟨expiresAt, hc.issued_of_open hhist ht, hlive⟩

end Runs

namespace LinkSample

def secret : Secret := .link (Context.sample.sha256 link)

theorem distinct : Context.sample.DistinctDraws secret 2 := by
  have hsource : ∀ m < 2, ∀ n < 2, Context.sample.sha256 (Context.sample.randomToken m) =
      Context.sample.sha256 link → Context.sample.sha256 (Context.sample.randomToken n) =
        Context.sample.sha256 link → m = n := by decide
  exact fun m n hm hn ↦ hsource m hm n hn

/-- The secret is redeemed. -/
def claimsSecret : AppEvent → Bool
  | .ran _ _ (.sql (.authTokens (.claim .passwordReset hash))) b =>
      decide (Secret.link hash = secret) &&
        ((AuthTokenSql.claim .passwordReset hash).run b.now b.db.authTokens).1.join.isSome
  | _ => false

end LinkSample

/-- Ada forgets her password and the link in her inbox is followed twice. -/
theorem secret_honoured_once_link :
    ∃ c, Reached .sample LinkSample.start c ∧
      (∃ e ∈ c.world.history, Consumed LinkSample.secret (.redeem .passwordReset) e) ∧
        HonouredOnce .sample LinkSample.secret LinkSample.start c.world.history := by
  let test : AppConfig → Bool := fun c ↦ decide (c.world.store.draws = 2) &&
    c.world.history.any LinkSample.claimsSecret
  obtain ⟨c, hc, htest⟩ : ∃ c, Reached .sample LinkSample.start c ∧ test c = true :=
    Reachable.of_schedule (LinkSample.forgotten ++ LinkSample.usedTwice) test
      (by decide) (by decide)
  obtain ⟨hdraws, hany⟩ := (Bool.and_eq_true_iff ..).mp htest
  obtain ⟨e, he, hconsumes⟩ := List.any_eq_true.mp hany
  refine ⟨c, hc,
    ⟨e, he, ?_⟩, secret_honoured_once hc ⟨?_, by rintro t ⟨⟩, fun hne ↦ absurd rfl hne⟩⟩
  · unfold LinkSample.claimsSecret at hconsumes
    split at hconsumes
    next i k hash b =>
      obtain ⟨hhash, hsome⟩ := (Bool.and_eq_true_iff ..).mp hconsumes
      obtain ⟨t, ht⟩ := Option.isSome_iff_exists.mp hsome
      exact (of_decide_eq_true hhash : Secret.link hash = _) ▸ .link (Option.join_eq_some_iff.mp ht)
    next => cases hconsumes
  · rw [of_decide_eq_true hdraws]
    exact LinkSample.distinct

end ApiStarter
