import ApiStarter.Schema

/-!
# Tokens, recovery codes, API keys and the audit log

The statements of `modules/auth/repositories`, and those of `api_keys` and
`audit_log` that other handlers reach.
-/

namespace ApiStarter

open Relational

/-! ## auth_tokens -/

inductive AuthTokenSql
  | insert (userId : Uuid) (purpose : TokenPurpose) (tokenHash : String) (newEmail : Option String)
      (expiresAt : Time)
  | invalidateUnused (userId : Uuid) (purpose : TokenPurpose)
  | findUnused (purpose : TokenPurpose) (tokenHash : String)
  | claim (purpose : TokenPurpose) (tokenHash : String)
  | countIssuedSince (userId : Uuid) (purpose : TokenPurpose) (since : Time)
  | deleteExpired (cutoff : Time)

@[reducible] def AuthTokenSql.Res : AuthTokenSql → Type
  | .insert .. => Unit
  | .invalidateUnused .. => Unit
  | .findUnused .. => Option AuthToken
  | .claim .. => Option AuthToken
  | .countIssuedSince .. => ℕ
  | .deleteExpired _ => Unit

def AuthToken.markUsed (now : Time) (t : AuthToken) : AuthToken := { t with usedAt := some now }

@[simp] theorem AuthToken.tokenHash_markUsed (now : Time) (t : AuthToken) :
    (t.markUsed now).tokenHash = t.tokenHash := rfl

/-- `user_id = $1 AND purpose = $2 AND used_at IS NULL` -/
def AuthToken.isUnused (userId : Uuid) (purpose : TokenPurpose) (t : AuthToken) : Bool :=
  decide (t.userId = userId) && decide (t.purpose = purpose) && t.usedAt.isNone

/-- `purpose = $1 AND used_at IS NULL AND expires_at > now` -/
def AuthToken.isRedeemable (purpose : TokenPurpose) (now : Time) (t : AuthToken) : Bool :=
  decide (t.purpose = purpose) && t.usedAt.isNone && decide (now < t.expiresAt)

def AuthTokenSql.run (now : Time) (tokens : Table AuthToken.tokenHash) :
    (q : AuthTokenSql) → Option q.Res × Table AuthToken.tokenHash
  | .insert userId purpose tokenHash newEmail expiresAt =>
      match tokens.insert? ⟨userId, purpose, tokenHash, newEmail, expiresAt, none, now⟩ with
      | none => (none, tokens)
      | some tokens' => (some (), tokens')
  | .invalidateUnused userId purpose =>
      (some (), tokens.updateWhere (AuthToken.isUnused userId purpose) (AuthToken.markUsed now)
        (AuthToken.tokenHash_markUsed now))
  | .findUnused purpose tokenHash =>
      (some (tokens.find? fun t ↦ decide (t.tokenHash = tokenHash) && t.isRedeemable purpose now),
        tokens)
  | .claim purpose tokenHash =>
      let valid := fun t : AuthToken ↦
        decide (t.tokenHash = tokenHash) && t.isRedeemable purpose now
      (some ((tokens.find? valid).map (AuthToken.markUsed now)),
        tokens.updateWhere valid (AuthToken.markUsed now) (AuthToken.tokenHash_markUsed now))
  | .countIssuedSince userId purpose since =>
      (some (tokens.countWhere fun t ↦
        decide (t.userId = userId) && decide (t.purpose = purpose) && decide (since < t.createdAt)),
        tokens)
  | .deleteExpired cutoff => (some (), tokens.deleteWhere fun t ↦ t.expiresAt < cutoff)

section Rows

variable {now : Time} {tokens : Table AuthToken.tokenHash} {tokenHash : String} {t t' : AuthToken}

/-- A new token is unused. -/
theorem AuthTokenSql.get?_run_none (h : tokens.get? tokenHash = none) {q : AuthTokenSql}
    (ht : (q.run now tokens).2.get? tokenHash = some t) :
    ∃ userId purpose newEmail expiresAt, q = .insert userId purpose tokenHash newEmail expiresAt ∧
      t = ⟨userId, purpose, tokenHash, newEmail, expiresAt, none, now⟩ := by
  cases q with
  | insert userId purpose hash newEmail expiresAt =>
      simp only [run] at ht
      split at ht
      · simp [h] at ht
      · next hinsert =>
        obtain ⟨-, hget⟩ := Table.insert?_eq_some hinsert
        dsimp only at ht
        rw [hget, h] at ht
        split at ht
        · next hhash =>
          obtain rfl : hash = tokenHash := hhash
          exact ⟨userId, purpose, newEmail, expiresAt, rfl, (Option.some.inj ht).symm⟩
        · cases ht
  | invalidateUnused userId purpose =>
      rw [run, Table.get?_updateWhere_none h] at ht
      cases ht
  | claim purpose hash =>
      rw [run, Table.get?_updateWhere_none h] at ht
      cases ht
  | deleteExpired cutoff =>
      rw [run, Table.get?_deleteWhere, h] at ht
      cases ht
  | findUnused purpose hash => simp [run, h] at ht
  | countIssuedSince userId purpose since => simp [run, h] at ht

/-- A token that is kept stays as it was or is marked used. -/
theorem AuthTokenSql.get?_run (h : tokens.get? tokenHash = some t) {q : AuthTokenSql}
    (ht : (q.run now tokens).2.get? tokenHash = some t') : t' = t ∨ t' = t.markUsed now := by
  cases q with
  | insert userId purpose hash newEmail expiresAt =>
      simp only [run] at ht
      split at ht
      · exact .inl (Option.some.inj (ht.symm.trans h))
      · next hinsert =>
        obtain ⟨hnone, hget⟩ := Table.insert?_eq_some hinsert
        dsimp only at ht
        rw [hget, if_neg, h] at ht
        · exact .inl (Option.some.inj ht).symm
        · rintro rfl
          simp [hnone] at h
  | invalidateUnused userId purpose =>
      rw [run, Table.get?_updateWhere_some h, Option.some.injEq] at ht
      split at ht
      · exact .inr ht.symm
      · exact .inl ht.symm
  | claim purpose hash =>
      rw [run, Table.get?_updateWhere_some h, Option.some.injEq] at ht
      split at ht
      · exact .inr ht.symm
      · exact .inl ht.symm
  | deleteExpired cutoff =>
      rw [run, Table.get?_deleteWhere, h] at ht
      exact .inl (Option.some.inj (Option.filter_eq_some_iff.mp ht).1).symm
  | findUnused purpose hash => exact .inl (Option.some.inj (ht.symm.trans h))
  | countIssuedSince userId purpose since => exact .inl (Option.some.inj (ht.symm.trans h))

/-- An unused token was there before or is a new one. -/
theorem AuthTokenSql.mem_run {q : AuthTokenSql} (ht : t ∈ (q.run now tokens).2)
    (hunused : t.usedAt = none) : t ∈ tokens ∨ ∃ userId purpose newEmail expiresAt,
      q = .insert userId purpose t.tokenHash newEmail expiresAt ∧
        t = ⟨userId, purpose, t.tokenHash, newEmail, expiresAt, none, now⟩ := by
  have hget := Table.get?_of_mem ht
  cases hold : tokens.get? t.tokenHash with
  | none => exact .inr (AuthTokenSql.get?_run_none hold hget)
  | some t₀ =>
      rcases AuthTokenSql.get?_run hold hget with heq | heq
      · exact .inl (heq ▸ Table.mem_of_get? hold)
      · simp [heq, AuthToken.markUsed] at hunused

theorem AuthTokenSql.get?_invalidateUnused (now : Time) (h : tokens.get? tokenHash = some t)
    (userId : Uuid) (purpose : TokenPurpose) :
    ((AuthTokenSql.invalidateUnused userId purpose).run now tokens).2.get? tokenHash =
      some (if t.isUnused userId purpose then t.markUsed now else t) := by
  rw [run, Table.get?_updateWhere_some h]

/-- What a redemption returns is the redeemable token of that hash. -/
theorem AuthTokenSql.claim_eq_some {purpose : TokenPurpose}
    (h : ((AuthTokenSql.claim purpose tokenHash).run now tokens).1 = some (some t')) :
    ∃ t, tokens.get? tokenHash = some t ∧ t.isRedeemable purpose now = true ∧
      t' = t.markUsed now := by
  obtain ⟨t, hfind, rfl⟩ := Option.map_eq_some_iff.mp (Option.some.inj h)
  rw [Table.find?_key] at hfind
  obtain ⟨hget, hvalid⟩ := Option.filter_eq_some_iff.mp hfind
  exact ⟨t, hget, hvalid, rfl⟩

end Rows

/-! ## totp_recovery_codes -/

/-- `replace_all` is a transaction.  Its `DELETE` finds the rows of the account and locks them,
and when it commits these rows are gone and the new ones are there.  A claim that has to wait for
such a lock runs after the commit.  The hash tells the rows of an account apart. -/
inductive RecoveryCodeSql
  | lockAll (userId : Uuid)
  | replaceAll (userId : Uuid) (found codeHashes : List String)
  | claim (userId : Uuid) (codeHash : String)
  | deleteAll (userId : Uuid)

@[reducible] def RecoveryCodeSql.Res : RecoveryCodeSql → Type
  | .lockAll _ => List String
  | .replaceAll .. => Unit
  | .claim .. => Bool
  | .deleteAll _ => Unit

/-- `user_id = $1 AND code_hash = $2 AND used_at IS NULL` -/
def RecoveryCode.matches (userId : Uuid) (codeHash : String) (c : RecoveryCode) : Bool :=
  decide (c.userId = userId) && decide (c.codeHash = codeHash) && c.usedAt.isNone

def RecoveryCodeSql.run (now : Time) (codes : List RecoveryCode) :
    (q : RecoveryCodeSql) → Option q.Res × List RecoveryCode
  | .lockAll userId =>
      (some ((codes.filter fun c ↦ decide (c.userId = userId)).map RecoveryCode.codeHash), codes)
  | .replaceAll userId found codeHashes =>
      (some (), (codes.filter fun c ↦ decide (¬(c.userId = userId ∧ c.codeHash ∈ found))) ++
        codeHashes.map fun hash ↦ ⟨userId, hash, none, now⟩)
  | .claim userId codeHash =>
      (some (codes.any (RecoveryCode.matches userId codeHash)),
        codes.map fun c ↦
          if c.matches userId codeHash then { c with usedAt := some now } else c)
  | .deleteAll userId => (some (), codes.filter fun c ↦ decide (c.userId ≠ userId))

/-- An unused code was there before or belongs to a new batch. -/
theorem RecoveryCodeSql.mem_run {now : Time} {codes : List RecoveryCode} {q : RecoveryCodeSql}
    {c : RecoveryCode} (hc : c ∈ (q.run now codes).2) (hunused : c.usedAt = none) :
    c ∈ codes ∨ ∃ found hashes, q = .replaceAll c.userId found hashes ∧ c.codeHash ∈ hashes := by
  cases q with
  | lockAll userId => exact .inl hc
  | replaceAll userId found hashes =>
      rcases List.mem_append.mp hc with hold | hnew
      · exact .inl (List.mem_filter.mp hold).1
      · obtain ⟨hash, hhash, rfl⟩ := List.mem_map.mp hnew
        exact .inr ⟨found, hashes, rfl, hhash⟩
  | claim userId hash =>
      obtain ⟨c₀, hc₀, heq⟩ := List.mem_map.mp hc
      split at heq
      · simp [← heq] at hunused
      · exact .inl (heq ▸ hc₀)
  | deleteAll userId => exact .inl (List.mem_filter.mp hc).1

/-! ## api_keys -/

inductive ApiKeySql
  | findByHash (keyHash : String)
  | touch (id : Uuid) (instant : Time)

@[reducible] def ApiKeySql.Res : ApiKeySql → Type
  | .findByHash _ => Option ApiKey
  | .touch .. => Unit

def ApiKeySql.run (keys : Table ApiKey.id) : (q : ApiKeySql) → Option q.Res × Table ApiKey.id
  | .findByHash keyHash => (some (keys.find? fun k ↦ decide (k.keyHash = keyHash)), keys)
  | .touch id instant =>
      (some (), keys.updateWhere
        (fun k ↦ decide (k.id = id) && k.lastUsedAt.all fun used ↦ used < instant - Time.minutes 1)
        (fun k ↦ { k with lastUsedAt := some instant }) fun _ ↦ rfl)

end ApiStarter
