import ApiStarter.HalfFinished
import ApiStarter.Lockout
import ApiStarter.Secrets

/-!
# How long a secret works

A one-time link, an OAuth state, a login grant, a challenge or a recovery code
can be claimed from the statement that stores it until it expires, unless it was
claimed before, retired with the others of its account, or swept.  Whatever else
the application does meanwhile makes no difference.
-/

namespace ApiStarter

open Interleave Interleave.Prog Relational

/-! ## What is handed out -/

/-- A secret with the terms its row is stored under. -/
inductive Handout
  | link (userId : Uuid) (purpose : TokenPurpose) (hash : String) (expiresAt : Time)
  | state (hash : String) (expiresAt : Time)
  | grant (hash : String) (expiresAt : Time)
  | challenge (id : String) (kind : ChallengeKind) (userId : Option Uuid) (expiresAt : Time)
  | recoveryCode (userId : Uuid) (hash : String)

namespace Handout

def secret : Handout → Secret
  | .link _ _ hash _ => .link hash
  | .state hash _ => .state hash
  | .grant hash _ => .grant hash
  | .challenge id _ _ _ => .challenge id
  | .recoveryCode _ hash => .recoveryCode hash

def terms : Handout → Terms
  | .link _ purpose _ expiresAt => ⟨.redeem purpose, some expiresAt⟩
  | .state _ expiresAt => ⟨.authorize, some expiresAt⟩
  | .grant _ expiresAt => ⟨.exchange, some expiresAt⟩
  | .challenge _ kind userId expiresAt => ⟨.ceremony kind userId, some expiresAt⟩
  | .recoveryCode userId _ => ⟨.secondFactor userId, none⟩

/-- The statement it is spent with. -/
def claim : Handout → Statement
  | .link _ purpose hash _ => .sql (.authTokens (.claim purpose hash))
  | .state hash _ => .sql (.oauthStates (.claim hash))
  | .grant hash _ => .sql (.loginGrants (.claim hash))
  | .challenge id kind userId _ => .sql (.challenges (.claim id kind userId))
  | .recoveryCode userId hash => .sql (.recoveryCodes (.claim userId hash))

/-- The row of this handout is stored and unused. -/
def isOut : Handout → Server → Prop
  | .link userId purpose hash expiresAt, s =>
      linkIs hash (fun r ↦ r.isUnused userId purpose && decide (r.expiresAt = expiresAt)) s
  | .state hash expiresAt, s => ⟨.authorize, some expiresAt⟩ ∈ (Secret.state hash).openTerms s.db
  | .grant hash expiresAt, s => ⟨.exchange, some expiresAt⟩ ∈ (Secret.grant hash).openTerms s.db
  | .challenge id kind userId expiresAt, s =>
      ⟨.ceremony kind userId, some expiresAt⟩ ∈ (Secret.challenge id).openTerms s.db
  | .recoveryCode userId hash, s =>
      ⟨.secondFactor userId, none⟩ ∈ (Secret.recoveryCode hash).openTerms s.db

/-- The statement spends, retires or sweeps it. -/
inductive EndedBy : Handout → Statement → Prop
  | claimed (o : Handout) : EndedBy o o.claim
  | retired {userId : Uuid} {purpose : TokenPurpose} {hash : String} {expiresAt : Time} :
      EndedBy (.link userId purpose hash expiresAt)
        (.sql (.authTokens (.invalidateUnused userId purpose)))
  | sweptLink {userId : Uuid} {purpose : TokenPurpose} {hash : String} {expiresAt cutoff : Time}
      (hlt : expiresAt < cutoff) : EndedBy (.link userId purpose hash expiresAt)
        (.sql (.authTokens (.deleteExpired cutoff)))
  | sweptState {hash : String} {expiresAt cutoff : Time} (hlt : expiresAt < cutoff) :
      EndedBy (.state hash expiresAt) (.sql (.oauthStates (.deleteExpired cutoff)))
  | sweptGrant {hash : String} {expiresAt cutoff : Time} (hlt : expiresAt < cutoff) :
      EndedBy (.grant hash expiresAt) (.sql (.loginGrants (.deleteExpired cutoff)))
  | sweptChallenge {id : String} {kind : ChallengeKind} {userId : Option Uuid}
      {expiresAt cutoff : Time} (hlt : expiresAt < cutoff) :
      EndedBy (.challenge id kind userId expiresAt) (.sql (.challenges (.deleteExpired cutoff)))
  /-- A transaction commits whose `DELETE` found the code. -/
  | renewed {userId : Uuid} {hash : String} {found hashes : List String} (hfound : hash ∈ found)
      (hnot : hash ∉ hashes) :
      EndedBy (.recoveryCode userId hash) (.sql (.recoveryCodes (.replaceAll userId found hashes)))
  | dropped {userId : Uuid} {hash : String} :
      EndedBy (.recoveryCode userId hash) (.sql (.recoveryCodes (.deleteAll userId)))

/-- The statement stores it. -/
def StoredBy : Handout → Statement → Prop
  | .link userId purpose hash expiresAt, q =>
      ∃ newEmail, q = .sql (.authTokens (.insert userId purpose hash newEmail expiresAt))
  | o, q => q.issues o.secret = some o.terms

theorem StoredBy.issues {o : Handout} {q : Statement} (h : o.StoredBy q) :
    q.issues o.secret = some o.terms := by
  cases o with
  | link userId purpose hash expiresAt =>
      obtain ⟨newEmail, rfl⟩ := h
      simp [Statement.issues, secret, terms]
  | _ => exact h

section Statements

variable {cx : Context} {o : Handout} {q : Statement} {s : Server}

theorem terms_of_isOut (h : o.isOut s) : o.terms ∈ o.secret.openTerms s.db := by
  cases o with
  | link userId purpose hash expiresAt =>
      obtain ⟨r, hget, hrow⟩ := h
      simp only [AuthToken.isUnused, Bool.and_eq_true, decide_eq_true_eq,
        Option.isNone_iff_eq_none] at hrow
      exact mem_openTerms_link.mpr ⟨r, hget, hrow.1.2, by simp [terms, hrow.1.1.2, hrow.2]⟩
  | _ => exact h

/-- In time the claim of a stored secret succeeds. -/
theorem consumes_of_isOut (h : o.isOut s) (htime : ∀ x ∈ o.terms.expiresAt, s.now < x) :
    o.claim.Consumes s o.secret o.terms.use := by
  cases o with
  | link userId purpose hash expiresAt =>
      obtain ⟨r, hget, hrow⟩ := h
      simp only [AuthToken.isUnused, Bool.and_eq_true, decide_eq_true_eq] at hrow
      obtain ⟨⟨⟨-, hpurpose⟩, hunused⟩, rfl⟩ := hrow
      refine .link (t := r.markUsed s.now) ?_
      have hvalid : r.isRedeemable purpose s.now = true := by
        simp [AuthToken.isRedeemable, hpurpose, hunused, htime r.expiresAt rfl]
      simp only [AuthTokenSql.run]
      rw [Table.find?_key, hget, Option.filter_some, if_pos hvalid, Option.map_some]
  | state hash expiresAt =>
      obtain ⟨r, hget, hterms⟩ := mem_openTerms_state.mp h
      simp only [Terms.mk.injEq, Option.some.injEq, true_and] at hterms
      refine .state (r := r) ?_
      simp only [OAuthStateSql.run]
      have hlive : s.now < r.expiresAt := hterms ▸ htime expiresAt rfl
      rw [Table.find?_key, hget, Option.filter_some, if_pos (by simpa using hlive)]
  | grant hash expiresAt =>
      obtain ⟨g, hget, hunused, hterms⟩ := mem_openTerms_grant.mp h
      simp only [Terms.mk.injEq, Option.some.injEq, true_and] at hterms
      have hlive : s.now < g.expiresAt := hterms ▸ htime expiresAt rfl
      have hrun : ((LoginGrantSql.claim hash).run s.now s.db.loginGrants).1 =
          some (some g.userId) := by
        simp only [LoginGrantSql.run]
        rw [Table.find?_key, hget, Option.filter_some, if_pos (by simpa [hunused] using hlive),
          Option.map_some]
      exact .grant hrun
  | challenge id kind userId expiresAt =>
      obtain ⟨c, hget, hterms⟩ := mem_openTerms_challenge.mp h
      simp only [Terms.mk.injEq, Use.ceremony.injEq, Option.some.injEq] at hterms
      obtain ⟨⟨hkind, howner⟩, hexpires⟩ := hterms
      have hlive : s.now < c.expiresAt := hexpires ▸ htime expiresAt rfl
      have hrun : ((ChallengeSql.claim id kind userId).run s.now s.db.challenges).1 =
          some (some c.stateJson) := by
        simp only [ChallengeSql.run]
        rw [Table.find?_key s.db.challenges id fun c ↦ decide (c.kind = kind) &&
          decide (c.userId = userId) && decide (s.now < c.expiresAt), hget, Option.filter_some,
          if_pos (by simpa [hkind, howner] using hlive), Option.map_some]
      exact .challenge hrun
  | recoveryCode userId hash =>
      obtain ⟨c, hc, hhash, hunused, hterms⟩ := mem_openTerms_recoveryCode.mp h
      simp only [Terms.mk.injEq, Use.secondFactor.injEq, and_true] at hterms
      refine .recoveryCode (congrArg some (List.any_eq_true.mpr ⟨c, hc, ?_⟩))
      simp [RecoveryCode.matches, hterms, hhash, hunused]

/-- A handout is out only by being stored. -/
theorem storedBy_of_rises (h : Rises (machine cx) o.isOut q s) : o.StoredBy q := by
  cases o with
  | link userId purpose hash expiresAt =>
      obtain ⟨u, p, newEmail, x, rfl, hrow⟩ := insert_of_unused_rises (fun r now ↦ by
        simp [AuthToken.not_isUnused_markUsed]) h
      simp only [AuthToken.isUnused, Bool.and_eq_true, decide_eq_true_eq] at hrow
      obtain ⟨⟨⟨rfl, rfl⟩, -⟩, rfl⟩ := hrow
      exact ⟨newEmail, rfl⟩
  | _ => exact issues_of_rises h

theorem not_storedBy_of_endedBy (h : o.EndedBy q) : ¬o.StoredBy q := by
  intro hstored
  have hissues := hstored.issues
  cases h with
  | claimed o => cases o <;> simp [Statement.issues, claim] at hissues
  | renewed hfound hnot => simp [Statement.issues, secret, hnot] at hissues
  | _ => simp [Statement.issues] at hissues

/-- While it is out, it is open under its own terms only. -/
theorem terms_eq_of_use {t : Terms} (h : o.isOut s) (ht : t ∈ o.secret.openTerms s.db)
    (huse : t.use = o.terms.use) : t = o.terms := by
  have hown := terms_of_isOut h
  cases o with
  | link userId purpose hash expiresAt =>
      obtain ⟨r, hget, -, hr⟩ := mem_openTerms_link.mp hown
      obtain ⟨r', hget', -, rfl⟩ := mem_openTerms_link.mp ht
      rw [← hr, Option.some.inj (hget'.symm.trans hget)]
  | state hash expiresAt =>
      obtain ⟨r, hget, hr⟩ := mem_openTerms_state.mp hown
      obtain ⟨r', hget', rfl⟩ := mem_openTerms_state.mp ht
      rw [← hr, Option.some.inj (hget'.symm.trans hget)]
  | grant hash expiresAt =>
      obtain ⟨r, hget, -, hr⟩ := mem_openTerms_grant.mp hown
      obtain ⟨r', hget', -, rfl⟩ := mem_openTerms_grant.mp ht
      rw [← hr, Option.some.inj (hget'.symm.trans hget)]
  | challenge id kind userId expiresAt =>
      obtain ⟨r, hget, hr⟩ := mem_openTerms_challenge.mp hown
      obtain ⟨r', hget', rfl⟩ := mem_openTerms_challenge.mp ht
      rw [← hr, Option.some.inj (hget'.symm.trans hget)]
  | recoveryCode userId hash =>
      obtain ⟨r, -, -, -, rfl⟩ := mem_openTerms_recoveryCode.mp ht
      exact congrArg (Terms.mk · none) huse

/-- What is spent or retired in time is out no longer. -/
theorem not_isOut_of_endedBy (h : o.EndedBy q) (htime : ∀ x ∈ o.terms.expiresAt, s.now < x) :
    ¬o.isOut ((machine cx).exec q s).2 := by
  intro hafter
  have hbefore : o.isOut s := by
    by_contra hnot
    exact not_storedBy_of_endedBy h (storedBy_of_rises ⟨hnot, hafter⟩)
  cases h with
  | claimed o =>
      obtain ⟨t, ht, huse, -, hclosed⟩ := closes_of_consumes cx (consumes_of_isOut hbefore htime)
      rw [terms_eq_of_use hbefore ht huse] at hclosed
      exact hclosed (terms_of_isOut hafter)
  | retired =>
      obtain ⟨r, hget, hrow⟩ := hafter
      exact ends_invalidateUnused ⟨r, hget, ((Bool.and_eq_true _ _).mp hrow).1⟩
  | sweptLink hlt =>
      obtain ⟨r, hget, hrow⟩ := hafter
      simp only [exec_sql, Sql.run, AuthTokenSql.run, Table.get?_deleteWhere,
        Option.filter_eq_some_iff] at hget
      simp_all
  | sweptState hlt =>
      obtain ⟨r, hget, hterms⟩ := mem_openTerms_state.mp hafter
      simp only [exec_sql, Sql.run, OAuthStateSql.run, Table.get?_deleteWhere,
        Option.filter_eq_some_iff] at hget
      simp_all
  | sweptGrant hlt =>
      obtain ⟨r, hget, -, hterms⟩ := mem_openTerms_grant.mp hafter
      simp only [exec_sql, Sql.run, LoginGrantSql.run, Table.get?_deleteWhere,
        Option.filter_eq_some_iff] at hget
      simp_all
  | sweptChallenge hlt =>
      obtain ⟨r, hget, hterms⟩ := mem_openTerms_challenge.mp hafter
      simp only [exec_sql, Sql.run, ChallengeSql.run, Table.get?_deleteWhere,
        Option.filter_eq_some_iff] at hget
      simp_all
  | renewed hfound hnot =>
      obtain ⟨r, hr, rfl, -, hterms⟩ := mem_openTerms_recoveryCode.mp hafter
      simp only [exec_sql, Sql.run, RecoveryCodeSql.run, List.mem_append, List.mem_filter,
        List.mem_map] at hr
      rcases hr with ⟨-, hother⟩ | ⟨hash, hmem, rfl⟩
      · simp_all
      · exact hnot hmem
  | dropped =>
      obtain ⟨r, hr, rfl, -, hterms⟩ := mem_openTerms_recoveryCode.mp hafter
      simp only [exec_sql, Sql.run, RecoveryCodeSql.run, List.mem_filter] at hr
      simp_all

/-- Nothing else takes a link away. -/
theorem endedBy_of_ends_link {userId : Uuid} {purpose : TokenPurpose} {hash : String}
    {expiresAt : Time} {q : AuthTokenSql} (h : (link userId purpose hash expiresAt).isOut s)
    (hafter : ¬(link userId purpose hash expiresAt).isOut
      ((machine cx).exec (.sql (.authTokens q)) s).2) :
    (link userId purpose hash expiresAt).EndedBy (.sql (.authTokens q)) := by
  obtain ⟨r, hget, hrow⟩ := h
  have hkept : ((q.run s.now s.db.authTokens).2.get? hash ≠ some r) := fun hsame ↦
    hafter ⟨r, hsame, hrow⟩
  simp only [AuthToken.isUnused, Bool.and_eq_true, decide_eq_true_eq] at hrow
  obtain ⟨⟨⟨rfl, rfl⟩, -⟩, rfl⟩ := hrow
  cases q with
  | insert u p h e x =>
      simp only [AuthTokenSql.run] at hkept
      split at hkept
      · exact absurd hget hkept
      next hinsert => exact absurd (Table.get?_insert?_of_some hinsert hget) hkept
  | findUnused p h => exact absurd hget hkept
  | countIssuedSince u p x => exact absurd hget hkept
  | invalidateUnused u p =>
      rw [AuthTokenSql.get?_invalidateUnused s.now hget] at hkept
      by_cases hunused : r.isUnused u p = true
      · simp only [AuthToken.isUnused, Bool.and_eq_true, decide_eq_true_eq] at hunused
        obtain ⟨⟨rfl, rfl⟩, -⟩ := hunused
        exact .retired
      · simp [hunused] at hkept
  | claim p h =>
      simp only [AuthTokenSql.run] at hkept
      rw [Table.get?_updateWhere_some hget] at hkept
      by_cases hvalid : (decide (r.tokenHash = h) && r.isRedeemable p s.now) = true
      · simp only [AuthToken.isRedeemable, Bool.and_eq_true, decide_eq_true_eq] at hvalid
        obtain ⟨rfl, ⟨rfl, -⟩, -⟩ := hvalid
        rw [← Table.key_of_get? hget]
        exact .claimed (.link r.userId r.purpose r.tokenHash r.expiresAt)
      · simp [hvalid] at hkept
  | deleteExpired cutoff =>
      simp only [AuthTokenSql.run, Table.get?_deleteWhere, hget] at hkept
      apply EndedBy.sweptLink
      by_contra hlt
      simp [Option.filter, hlt] at hkept

theorem endedBy_of_ends_state {hash : String} {expiresAt : Time} {q : OAuthStateSql}
    (h : (state hash expiresAt).isOut s)
    (hafter : ¬(state hash expiresAt).isOut ((machine cx).exec (.sql (.oauthStates q)) s).2) :
    (state hash expiresAt).EndedBy (.sql (.oauthStates q)) := by
  obtain ⟨r, hget, hterms⟩ := mem_openTerms_state.mp h
  have hkept : (q.run s.now s.db.oauthStates).2.get? hash ≠ some r := fun hsame ↦
    hafter (mem_openTerms_state.mpr ⟨r, hsame, hterms⟩)
  simp only [Terms.mk.injEq, Option.some.injEq, true_and] at hterms
  subst hterms
  cases q with
  | insert row =>
      simp only [OAuthStateSql.run] at hkept
      split at hkept
      · exact absurd hget hkept
      next hinsert => exact absurd (Table.get?_insert?_of_some hinsert hget) hkept
  | claim h =>
      simp only [OAuthStateSql.run, Table.get?_deleteWhere, hget] at hkept
      by_cases hhash : r.stateHash = h
      · rw [← hhash, ← Table.key_of_get? hget]
        exact .claimed (.state r.stateHash r.expiresAt)
      · simp [Option.filter, hhash] at hkept
  | deleteExpired cutoff =>
      simp only [OAuthStateSql.run, Table.get?_deleteWhere, hget] at hkept
      apply EndedBy.sweptState
      by_contra hlt
      simp [Option.filter, hlt] at hkept

theorem endedBy_of_ends_grant {hash : String} {expiresAt : Time} {q : LoginGrantSql}
    (h : (grant hash expiresAt).isOut s)
    (hafter : ¬(grant hash expiresAt).isOut ((machine cx).exec (.sql (.loginGrants q)) s).2) :
    (grant hash expiresAt).EndedBy (.sql (.loginGrants q)) := by
  obtain ⟨g, hget, hunused, hterms⟩ := mem_openTerms_grant.mp h
  have hkept : (q.run s.now s.db.loginGrants).2.get? hash ≠ some g := fun hsame ↦
    hafter (mem_openTerms_grant.mpr ⟨g, hsame, hunused, hterms⟩)
  simp only [Terms.mk.injEq, Option.some.injEq, true_and] at hterms
  subst hterms
  cases q with
  | insert row =>
      simp only [LoginGrantSql.run] at hkept
      split at hkept
      · exact absurd hget hkept
      next hinsert => exact absurd (Table.get?_insert?_of_some hinsert hget) hkept
  | claim h =>
      simp only [LoginGrantSql.run] at hkept
      rw [Table.get?_updateWhere_some hget] at hkept
      by_cases hhash : g.codeHash = h
      · rw [← hhash, ← Table.key_of_get? hget]
        exact .claimed (.grant g.codeHash g.expiresAt)
      · simp [hhash] at hkept
  | deleteExpired cutoff =>
      simp only [LoginGrantSql.run, Table.get?_deleteWhere, hget] at hkept
      apply EndedBy.sweptGrant
      by_contra hlt
      simp [Option.filter, hlt] at hkept

theorem endedBy_of_ends_challenge {id : String} {kind : ChallengeKind} {userId : Option Uuid}
    {expiresAt : Time} {q : ChallengeSql} (h : (challenge id kind userId expiresAt).isOut s)
    (hafter : ¬(challenge id kind userId expiresAt).isOut
      ((machine cx).exec (.sql (.challenges q)) s).2) :
    (challenge id kind userId expiresAt).EndedBy (.sql (.challenges q)) := by
  obtain ⟨c, hget, hterms⟩ := mem_openTerms_challenge.mp h
  have hkept : (q.run s.now s.db.challenges).2.get? id ≠ some c := fun hsame ↦
    hafter (mem_openTerms_challenge.mpr ⟨c, hsame, hterms⟩)
  simp only [Terms.mk.injEq, Use.ceremony.injEq, Option.some.injEq] at hterms
  obtain ⟨⟨rfl, rfl⟩, rfl⟩ := hterms
  cases q with
  | insert row =>
      simp only [ChallengeSql.run] at hkept
      split at hkept
      · exact absurd hget hkept
      next hinsert => exact absurd (Table.get?_insert?_of_some hinsert hget) hkept
  | claim id' kind' userId' =>
      simp only [ChallengeSql.run, Table.get?_deleteWhere, hget] at hkept
      by_cases hvalid : c.id = id' ∧ c.kind = kind' ∧ c.userId = userId'
      · obtain ⟨rfl, rfl, rfl⟩ := hvalid
        rw [← Table.key_of_get? hget]
        exact .claimed (.challenge c.id c.kind c.userId c.expiresAt)
      · simp only [Option.filter] at hkept
        simp_all
  | deleteExpired cutoff =>
      simp only [ChallengeSql.run, Table.get?_deleteWhere, hget] at hkept
      apply EndedBy.sweptChallenge
      by_contra hlt
      simp [Option.filter, hlt] at hkept

theorem endedBy_of_ends_recoveryCode {userId : Uuid} {hash : String} {q : RecoveryCodeSql}
    (h : (recoveryCode userId hash).isOut s)
    (hafter : ¬(recoveryCode userId hash).isOut
      ((machine cx).exec (.sql (.recoveryCodes q)) s).2) :
    (recoveryCode userId hash).EndedBy (.sql (.recoveryCodes q)) := by
  obtain ⟨c, hmem, hhash, hunused, hterms⟩ := mem_openTerms_recoveryCode.mp h
  have hkept : c ∉ (q.run s.now s.db.recoveryCodes).2 := fun hstill ↦
    hafter (mem_openTerms_recoveryCode.mpr ⟨c, hstill, hhash, hunused, hterms⟩)
  simp only [Terms.mk.injEq, Use.secondFactor.injEq, and_true] at hterms
  subst hterms hhash
  cases q with
  | lockAll u => exact absurd hmem hkept
  | replaceAll u found hashes =>
      simp only [RecoveryCodeSql.run, List.mem_append, List.mem_filter, hmem, true_and,
        decide_not, Bool.not_eq_true', decide_eq_false_iff_not, not_or, not_not] at hkept
      obtain ⟨⟨rfl, hfound⟩, -⟩ := hkept
      refine .renewed hfound fun hrenewed ↦ hafter (mem_openTerms_recoveryCode.mpr ?_)
      refine ⟨⟨c.userId, c.codeHash, none, s.now⟩, List.mem_append_right _ ?_, rfl, rfl, rfl⟩
      exact List.mem_map_of_mem hrenewed
  | claim u h =>
      simp only [RecoveryCodeSql.run, List.mem_map, not_exists, not_and] at hkept
      by_cases hmatch : c.matches u h = true
      · simp only [RecoveryCode.matches, Bool.and_eq_true, decide_eq_true_eq] at hmatch
        obtain ⟨⟨rfl, rfl⟩, -⟩ := hmatch
        exact .claimed (.recoveryCode c.userId c.codeHash)
      · exact absurd (if_neg hmatch) (hkept c hmem)
  | deleteAll u =>
      simp only [RecoveryCodeSql.run, List.mem_filter, hmem, true_and, decide_not,
        Bool.not_eq_true', decide_eq_false_iff_not, not_not] at hkept
      subst hkept
      exact .dropped

/-- Nothing else takes a handout away. -/
theorem endedBy_of_ends (h : o.isOut s) (hafter : ¬o.isOut ((machine cx).exec q s).2) :
    o.EndedBy q := by
  cases q with
  | sql q =>
      cases o with
      | link userId purpose hash expiresAt =>
          cases q with
          | authTokens q => exact endedBy_of_ends_link h hafter
          | _ => exact absurd h hafter
      | state hash expiresAt =>
          cases q with
          | oauthStates q => exact endedBy_of_ends_state h hafter
          | _ => exact absurd h hafter
      | grant hash expiresAt =>
          cases q with
          | loginGrants q => exact endedBy_of_ends_grant h hafter
          | _ => exact absurd h hafter
      | challenge id kind userId expiresAt =>
          cases q with
          | challenges q => exact endedBy_of_ends_challenge h hafter
          | _ => exact absurd h hafter
      | recoveryCode userId hash =>
          cases q with
          | recoveryCodes q => exact endedBy_of_ends_recoveryCode h hafter
          | _ => exact absurd h hafter
  | _ => exact absurd (by cases o <;> exact h) hafter

/-- Whatever is open is out with some handout. -/
theorem exists_isOut {t : Terms} (ht : t ∈ o.secret.openTerms s.db) :
    ∃ o' : Handout, o'.secret = o.secret ∧ o'.terms = t ∧ o'.isOut s := by
  cases o with
  | link userId purpose hash expiresAt =>
      obtain ⟨r, hget, hunused, rfl⟩ := mem_openTerms_link.mp ht
      exact ⟨.link r.userId r.purpose hash r.expiresAt, rfl, rfl, r, hget,
        by simp [AuthToken.isUnused, hunused]⟩
  | state hash expiresAt =>
      obtain ⟨r, hget, rfl⟩ := mem_openTerms_state.mp ht
      exact ⟨.state hash r.expiresAt, rfl, rfl, ht⟩
  | grant hash expiresAt =>
      obtain ⟨g, hget, -, rfl⟩ := mem_openTerms_grant.mp ht
      exact ⟨.grant hash g.expiresAt, rfl, rfl, ht⟩
  | challenge id kind userId expiresAt =>
      obtain ⟨c, hget, rfl⟩ := mem_openTerms_challenge.mp ht
      exact ⟨.challenge id c.kind c.userId c.expiresAt, rfl, rfl, ht⟩
  | recoveryCode userId hash =>
      obtain ⟨c, -, -, -, rfl⟩ := mem_openTerms_recoveryCode.mp ht
      exact ⟨.recoveryCode c.userId hash, rfl, rfl, ht⟩

/-- One statement stores a secret in one way. -/
theorem StoredBy.eq {o' : Handout} (h : o.StoredBy q) (h' : o'.StoredBy q)
    (hsecret : o'.secret = o.secret) : o' = o := by
  have hterms : o'.terms = o.terms :=
    Option.some.inj (h'.issues.symm.trans (hsecret ▸ h.issues))
  cases o with
  | link userId purpose hash expiresAt =>
      cases o' with
      | link u p hash' x =>
          obtain ⟨newEmail, rfl⟩ := h
          obtain ⟨newEmail', heq⟩ := h'
          simp only [Statement.sql.injEq, Sql.authTokens.injEq, AuthTokenSql.insert.injEq] at heq
          simp [heq]
      | _ => cases hsecret
  | _ => cases o' <;> simp_all [secret, terms]

end Statements

theorem isOut_env (o : Handout) (ticks : ℕ) (s : Server) :
    o.isOut ((machine cx).env ticks s) ↔ o.isOut s := by
  cases o <;> exact Iff.rfl

end Handout

/-! ## All runs -/

open Handout in
/-- A secret that was handed out can be claimed exactly until it expires, is claimed, retired with
its account's others, or swept. -/
theorem secrets_last {cx : Context} {o : Handout} {s : Server} {c : AppConfig}
    (hc : Reached cx s c) (hfresh : cx.FreshFor o.secret s c.world.store.draws)
    {later earlier : List AppEvent} {i : ℕ} {k : Request} {q : Statement} {b : Server}
    (hhist : c.world.history = later ++ .ran i k q b :: earlier) (hissue : o.StoredBy q)
    (hstored : o.isOut ((machine cx).exec q b).2) :
    o.claim.Consumes c.world.store o.secret o.terms.use ↔
      (∀ x ∈ o.terms.expiresAt, c.world.store.now < x) ∧
        ∀ e ∈ later, ¬e.Ran fun q _ ↦ o.EndedBy q := by
  have honce := hc.minted_once hfresh.distinct
  have hmem : .ran i k q b ∈ c.world.history := by simp [hhist]
  constructor
  · intro hconsumes
    obtain ⟨t, ht, huse, hlive, -⟩ := closes_of_consumes cx hconsumes
    obtain ⟨o', hsecret, rfl, hout⟩ := exists_isOut ht
    -- the row that is open now was stored in the run, and the secret was stored once
    have hnew : ¬o'.isOut s := fun hstart ↦
      hc.not_issued_of_start hfresh (hsecret ▸ terms_of_isOut hstart) hmem hissue.issues
    obtain ⟨mid, y, older, hsplit, hrises, -⟩ := hc.rises_of_live o'.isOut (isOut_env o') hnew hout
    obtain rfl : o' = o := by
      cases y with
      | answered => exact hrises.elim
      | ran j k' q' b' =>
          have hstored' := storedBy_of_rises hrises
          have hmints : q'.Mints o.secret := hsecret ▸ mints_of_issues hstored'.issues
          have hsame := honce.eq hmem (by simp [hsplit] : .ran j k' q' b' ∈ c.world.history)
            (mints_of_issues hissue.issues) hmints
          cases hsame
          exact hissue.eq hstored' hsecret
    refine ⟨hlive, fun e he hended ↦ ?_⟩
    obtain ⟨l₁, l₂, rfl⟩ := List.append_of_mem he
    have hsplit₂ : c.world.history = l₁ ++ e :: (l₂ ++ .ran i k q b :: earlier) := by simp [hhist]
    refine hc.not_live_of_ended o'.isOut (isOut_env o') hsplit₂ (fun x hx hrise ↦ ?_) ?_ hout
    · cases x with
      | answered => exact hrise.elim
      | ran j k' q' b' =>
          have hpair := (List.pairwise_append.mp (hsplit₂ ▸ honce)).2.2 _ hx _
            (by simp : .ran i k q b ∈ e :: (l₂ ++ .ran i k q b :: earlier))
          exact hpair ⟨mints_of_issues hissue.issues,
            mints_of_issues (storedBy_of_rises hrise).issues⟩
    · cases e with
      | answered => exact hended.elim
      | ran j k' q' b' =>
          refine not_isOut_of_endedBy hended fun x hx ↦ ?_
          have hle := hc.now_le (e := .ran j k' q' b') (by simp [hsplit₂])
          exact lt_of_le_of_lt hle (hlive x hx)
  · rintro ⟨htime, hkept⟩
    refine consumes_of_isOut (hc.live_of_begun o.isOut (isOut_env o) hhist hstored
      fun x hx hlive hend ↦ hkept x hx ?_) htime
    cases x with
    | ran j k' q' b' => exact endedBy_of_ends hlive hend
    | answered => exact hend

namespace LinkSample

/-- Ada's link as it was stored, when it still works in the end. -/
def storesLasting (s : Server) : AppEvent → Bool
  | .ran _ _ (.sql (.authTokens (.insert u .passwordReset hash newEmail x))) b =>
      let lasts (s : Server) : Bool := (s.db.authTokens.get? hash).any fun r ↦
        r.isUnused u .passwordReset && decide (r.expiresAt = x)
      decide (Secret.link hash = secret) && decide (s.now < x) && lasts s &&
        lasts ((machine .sample).exec
          (.sql (.authTokens (.insert u .passwordReset hash newEmail x))) b).2
  | _ => false

end LinkSample

/-- Ada asks for a link and then changes her password while signed in; the link still works. -/
theorem secrets_last_link : ∃ c, Reached .sample LinkSample.start c ∧
    (∃ e ∈ c.world.history, changesPassword 1 e = true) ∧ ∃ o : Handout,
      o.secret = LinkSample.secret ∧ o.claim.Consumes c.world.store o.secret o.terms.use ∧
        ∃ later i k q b earlier, c.world.history = later ++ .ran i k q b :: earlier ∧
          o.StoredBy q ∧ ∀ e ∈ later, ¬e.Ran fun q _ ↦ o.EndedBy q := by
  let test : AppConfig → Bool := fun c ↦ decide (c.world.store.draws = 2) &&
    c.world.history.any (changesPassword 1) &&
      c.world.history.any (LinkSample.storesLasting c.world.store)
  obtain ⟨c, hc, htest⟩ : ∃ c, Reached .sample LinkSample.start c ∧ test c = true :=
    Reachable.of_schedule (LinkSample.forgotten ++ LinkSample.changed) test (by decide) (by decide)
  simp only [test, Bool.and_eq_true, List.any_eq_true, decide_eq_true_eq] at htest
  obtain ⟨⟨hdraws, hchanged⟩, e, he, hstores⟩ := htest
  obtain ⟨later, earlier, hhist⟩ := List.append_of_mem he
  unfold LinkSample.storesLasting at hstores
  split at hstores
  next i k u hash newEmail x b =>
    simp only [Bool.and_eq_true, decide_eq_true_eq] at hstores
    obtain ⟨⟨⟨hsecret, hlive⟩, hnow⟩, hstored⟩ := hstores
    let o : Handout := .link u .passwordReset hash x
    have hfresh : Context.sample.FreshFor o.secret LinkSample.start c.world.store.draws := by
      refine ⟨?_, by rintro t ⟨⟩, fun hne ↦ absurd rfl hne⟩
      have hlink : o.secret = LinkSample.secret := hsecret
      rw [hdraws, hlink]
      exact LinkSample.distinct
    have hout : o.isOut c.world.store := (Option.any_eq_true ..).mp hnow
    have hlast := secrets_last hc hfresh hhist ⟨newEmail, rfl⟩ ((Option.any_eq_true ..).mp hstored)
    have hconsumes : o.claim.Consumes c.world.store o.secret o.terms.use := by
      refine Handout.consumes_of_isOut hout ?_
      rintro _ ⟨⟩
      exact hlive
    exact ⟨c, hc, hchanged, o, hsecret, hconsumes, later, i, k, _, b, earlier, hhist,
      ⟨newEmail, rfl⟩, (hlast.mp hconsumes).2⟩
  next => cases hstores

end ApiStarter
