import ApiStarter.Schema

/-!
# OAuth, passkeys and QR login

The statements of `modules/oauth/repositories`, `modules/passkeys/repositories`
and `modules/qr_login/repository.rs`.
-/

namespace ApiStarter

open Relational

/-! ## oauth_states -/

inductive OAuthStateSql
  | deleteExpired (cutoff : Time)
  | insert (row : OAuthState)
  | claim (stateHash : String)

@[reducible] def OAuthStateSql.Res : OAuthStateSql → Type
  | .deleteExpired _ => Unit
  | .insert _ => Unit
  | .claim _ => Option OAuthState

def OAuthStateSql.run (now : Time) (states : Table OAuthState.stateHash) :
    (q : OAuthStateSql) → Option q.Res × Table OAuthState.stateHash
  | .deleteExpired cutoff => (some (), states.deleteWhere fun s ↦ s.expiresAt < cutoff)
  | .insert row =>
      match states.insert? row with
      | none => (none, states)
      | some states' => (some (), states')
  | .claim stateHash =>
      let valid := fun s : OAuthState ↦ decide (s.stateHash = stateHash) &&
        decide (now < s.expiresAt)
      (some (states.find? valid), states.deleteWhere valid)

theorem OAuthStateSql.get?_run {now : Time} {states : Table OAuthState.stateHash}
    {q : OAuthStateSql} {hash : String} {r : OAuthState}
    (hr : (q.run now states).2.get? hash = some r) :
    states.get? hash = some r ∨ q = .insert r := by
  cases q with
  | insert row =>
      simp only [run] at hr
      split at hr
      · exact .inl hr
      · next hinsert =>
        obtain ⟨-, hget⟩ := Table.insert?_eq_some hinsert
        dsimp only at hr
        rw [hget] at hr
        split at hr
        · exact .inr (Option.some.inj hr ▸ rfl)
        · exact .inl hr
  | deleteExpired cutoff => exact .inl (Table.get?_of_get?_deleteWhere hr)
  | claim stateHash => exact .inl (Table.get?_of_get?_deleteWhere hr)

/-- What a callback gets is the state of that hash, which is not expired and is gone afterwards. -/
theorem OAuthStateSql.claim_eq_some {now : Time} {states : Table OAuthState.stateHash}
    {hash : String} {r : OAuthState}
    (h : ((OAuthStateSql.claim hash).run now states).1 = some (some r)) :
    states.get? hash = some r ∧ now < r.expiresAt ∧
      ((OAuthStateSql.claim hash).run now states).2.get? hash = none := by
  have hfind := Option.some.inj h
  rw [Table.find?_key] at hfind
  obtain ⟨hget, hvalid⟩ := Option.filter_eq_some_iff.mp hfind
  have hid : r.stateHash = hash := Table.key_of_get? hget
  refine ⟨hget, of_decide_eq_true hvalid, ?_⟩
  simp only [run]
  rw [Table.get?_deleteWhere, hget]
  simp_all

/-! ## oauth_identities -/

inductive OAuthIdentitySql
  | find (provider : Provider) (providerUserId : String)
  | list (userId : Uuid)
  | insert (userId : Uuid) (provider : Provider) (providerUserId : String) (email : Option String)
  | delete (userId : Uuid) (provider : Provider)

@[reducible] def OAuthIdentitySql.Res : OAuthIdentitySql → Type
  | .find .. => Option OAuthIdentity
  | .list _ => List OAuthIdentity
  | .insert .. => Bool
  | .delete .. => Bool

/-- `user_id = $1 AND provider = $2` -/
def OAuthIdentity.isLink (userId : Uuid) (provider : Provider) (i : OAuthIdentity) : Bool :=
  decide (i.userId = userId) && decide (i.provider = provider)

def OAuthIdentitySql.run (now : Time) (identities : Table OAuthIdentity.key) :
    (q : OAuthIdentitySql) → Option q.Res × Table OAuthIdentity.key
  | .find provider providerUserId =>
      (some (identities.get? (provider, providerUserId)), identities)
  | .list userId =>
      (some (Table.orderBy OAuthIdentity.createdAt
        (identities.selectWhere fun i ↦ decide (i.userId = userId))), identities)
  | .insert userId provider providerUserId email =>
      match identities.insert? ⟨userId, provider, providerUserId, email, now⟩ with
      | none => (some false, identities)
      | some identities' => (some true, identities')
  | .delete userId provider =>
      (some (0 < identities.countWhere (OAuthIdentity.isLink userId provider)),
        identities.deleteWhere (OAuthIdentity.isLink userId provider))

/-- An identity is inserted when its key is free, and kept otherwise. -/
theorem OAuthIdentitySql.run_insert (now : Time) (identities : Table OAuthIdentity.key)
    (userId : Uuid) (provider : Provider) (providerUserId : String) (email : Option String) :
    ((OAuthIdentitySql.insert userId provider providerUserId email).run now identities).1 =
        some (identities.get? (provider, providerUserId)).isNone ∧
      ((OAuthIdentitySql.insert userId provider providerUserId email).run now identities).2.get?
        (provider, providerUserId) = some ((identities.get? (provider, providerUserId)).getD
          ⟨userId, provider, providerUserId, email, now⟩) := by
  simp only [run]
  cases hinsert : identities.insert? ⟨userId, provider, providerUserId, email, now⟩ with
  | none =>
      obtain ⟨row, hget⟩ := Option.isSome_iff_exists.mp (Table.insert?_eq_none.mp hinsert)
      have hrow : identities.get? (provider, providerUserId) = some row := hget
      simp [hrow]
  | some identities' =>
      obtain ⟨hnone, hget⟩ := Table.insert?_eq_some hinsert
      have hfree : identities.get? (provider, providerUserId) = none := hnone
      refine ⟨by simp [hfree], (hget _).trans ?_⟩
      simp [hfree, OAuthIdentity.key]

/-! ## login_grants -/

inductive LoginGrantSql
  | deleteExpired (cutoff : Time)
  | insert (row : LoginGrant)
  | claim (codeHash : String)

@[reducible] def LoginGrantSql.Res : LoginGrantSql → Type
  | .deleteExpired _ => Unit
  | .insert _ => Unit
  | .claim _ => Option Uuid

def LoginGrantSql.run (now : Time) (grants : Table LoginGrant.codeHash) :
    (q : LoginGrantSql) → Option q.Res × Table LoginGrant.codeHash
  | .deleteExpired cutoff => (some (), grants.deleteWhere fun g ↦ g.expiresAt < cutoff)
  | .insert row =>
      match grants.insert? row with
      | none => (none, grants)
      | some grants' => (some (), grants')
  | .claim codeHash =>
      let valid := fun g : LoginGrant ↦
        decide (g.codeHash = codeHash) && (g.usedAt.isNone && decide (now < g.expiresAt))
      (some ((grants.find? valid).map LoginGrant.userId),
        grants.updateWhere valid (fun g ↦ { g with usedAt := some now }) fun _ ↦ rfl)

/-- An unused grant was there before or is a new one. -/
theorem LoginGrantSql.get?_run {now : Time} {grants : Table LoginGrant.codeHash}
    {q : LoginGrantSql} {hash : String} {g : LoginGrant}
    (hg : (q.run now grants).2.get? hash = some g) (hunused : g.usedAt = none) :
    grants.get? hash = some g ∨ q = .insert g := by
  cases q with
  | insert row =>
      simp only [run] at hg
      split at hg
      · exact .inl hg
      · next hinsert =>
        obtain ⟨-, hget⟩ := Table.insert?_eq_some hinsert
        dsimp only at hg
        rw [hget] at hg
        split at hg
        · exact .inr (Option.some.inj hg ▸ rfl)
        · exact .inl hg
  | deleteExpired cutoff => exact .inl (Table.get?_of_get?_deleteWhere hg)
  | claim codeHash =>
      simp only [run] at hg
      rw [Table.get?_updateWhere] at hg
      obtain ⟨g₀, hget, heq⟩ := Option.map_eq_some_iff.mp hg
      split at heq
      · simp [← heq] at hunused
      · exact .inl (heq ▸ hget)

theorem LoginGrantSql.get?_run_none {now : Time} {grants : Table LoginGrant.codeHash}
    {hash : String} (h : grants.get? hash = none) {q : LoginGrantSql} {g : LoginGrant}
    (hg : (q.run now grants).2.get? hash = some g) : q = .insert g := by
  cases q with
  | insert row =>
      simp only [run] at hg
      split at hg
      · simp [h] at hg
      · next hinsert =>
        obtain ⟨-, hget⟩ := Table.insert?_eq_some hinsert
        dsimp only at hg
        rw [hget, h] at hg
        split at hg
        · exact Option.some.inj hg ▸ rfl
        · cases hg
  | deleteExpired cutoff =>
      rw [run, Table.get?_deleteWhere, h] at hg
      cases hg
  | claim codeHash =>
      simp only [run] at hg
      rw [Table.get?_updateWhere_none h] at hg
      cases hg

/-- What an exchange gets is the owner of the grant of that hash, unused and not expired
before and used afterwards. -/
theorem LoginGrantSql.claim_eq_some {now : Time} {grants : Table LoginGrant.codeHash}
    {hash : String} {u : Uuid}
    (h : ((LoginGrantSql.claim hash).run now grants).1 = some (some u)) :
    ∃ g, grants.get? hash = some g ∧ g.userId = u ∧ g.usedAt = none ∧ now < g.expiresAt ∧
      ((LoginGrantSql.claim hash).run now grants).2.get? hash =
        some { g with usedAt := some now } := by
  obtain ⟨g, hfind, rfl⟩ := Option.map_eq_some_iff.mp (Option.some.inj h)
  rw [Table.find?_key] at hfind
  obtain ⟨hget, hvalid⟩ := Option.filter_eq_some_iff.mp hfind
  have hid : g.codeHash = hash := Table.key_of_get? hget
  simp only [Bool.and_eq_true, Option.isNone_iff_eq_none, decide_eq_true_eq] at hvalid
  refine ⟨g, hget, rfl, hvalid.1, hvalid.2, ?_⟩
  simp only [run]
  rw [Table.get?_updateWhere_some hget]
  simp_all

/-! ## passkeys -/

inductive PasskeySql
  | listByUser (userId : Uuid)
  | insert (id userId : Uuid) (name credentialId credentialJson : String)
  | updateAfterUse (id : Uuid) (credentialJson : String)
  | delete (userId id : Uuid)

@[reducible] def PasskeySql.Res : PasskeySql → Type
  | .listByUser _ => List PasskeyRow
  | .insert .. => Option PasskeyRow
  | .updateAfterUse .. => Unit
  | .delete .. => Bool

def PasskeySql.run (now : Time) (passkeys : Table PasskeyRow.id) :
    (q : PasskeySql) → Option q.Res × Table PasskeyRow.id
  | .listByUser userId =>
      (some (Table.orderBy PasskeyRow.createdAt
        (passkeys.selectWhere fun p ↦ decide (p.userId = userId))), passkeys)
  | .insert id userId name credentialId credentialJson =>
      -- ON CONFLICT (credential_id) DO NOTHING
      if (passkeys.find? fun p ↦ decide (p.credentialId = credentialId)).isSome then
        (some none, passkeys)
      else
        let row : PasskeyRow := ⟨id, userId, name, credentialId, credentialJson, now, none⟩
        match passkeys.insert? row with
        | none => (none, passkeys)
        | some passkeys' => (some (some row), passkeys')
  | .updateAfterUse id credentialJson =>
      (some (), passkeys.updateWhere (fun p ↦ decide (p.id = id))
        (fun p ↦ { p with credentialJson := credentialJson, lastUsedAt := some now }) fun _ ↦ rfl)
  | .delete userId id =>
      let mine := fun p : PasskeyRow ↦ decide (p.id = id) && decide (p.userId = userId)
      (some (passkeys.countWhere mine = 1), passkeys.deleteWhere mine)

section Passkeys

variable {now : Time} {passkeys : Table PasskeyRow.id} {id userId : Uuid}
  {name credentialId credentialJson : String}

theorem PasskeySql.run_insert_taken (h : ∃ p ∈ passkeys, p.credentialId = credentialId) :
    ((PasskeySql.insert id userId name credentialId credentialJson).run now passkeys).1 =
      some none := by
  have hfound : (passkeys.find? fun p ↦ decide (p.credentialId = credentialId)).isSome := by
    rw [Option.isSome_iff_ne_none, Ne, Table.find?_eq_none]
    obtain ⟨p, hp, hcredential⟩ := h
    intro hnone
    simpa [hcredential] using hnone p hp
  simp only [run]
  rw [if_pos hfound]

theorem PasskeySql.run_insert_free (h : ∀ p ∈ passkeys, p.credentialId ≠ credentialId)
    (hid : passkeys.get? id = none) :
    ((PasskeySql.insert id userId name credentialId credentialJson).run now passkeys).1 =
      some (some ⟨id, userId, name, credentialId, credentialJson, now, none⟩) := by
  have hnone : (passkeys.find? fun p ↦ decide (p.credentialId = credentialId)) = none := by
    rw [Table.find?_eq_none]
    intro p hp
    simpa using h p hp
  simp only [run, hnone, Option.isSome_none, Bool.false_eq_true, if_false]
  cases hinsert : passkeys.insert? ⟨id, userId, name, credentialId, credentialJson, now, none⟩ with
  | none =>
      obtain ⟨row, hrow⟩ := Option.isSome_iff_exists.mp (Table.insert?_eq_none.mp hinsert)
      exact absurd (hid.symm.trans hrow) (Option.some_ne_none _).symm
  | some passkeys' => rfl

end Passkeys

/-! ## webauthn_challenges -/

inductive ChallengeSql
  | deleteExpired (cutoff : Time)
  | insert (row : Challenge)
  | claim (id : String) (kind : ChallengeKind) (userId : Option Uuid)

@[reducible] def ChallengeSql.Res : ChallengeSql → Type
  | .deleteExpired _ => Unit
  | .insert _ => Unit
  | .claim .. => Option String

def ChallengeSql.run (now : Time) (challenges : Table Challenge.id) :
    (q : ChallengeSql) → Option q.Res × Table Challenge.id
  | .deleteExpired cutoff => (some (), challenges.deleteWhere fun c ↦ c.expiresAt < cutoff)
  | .insert row =>
      match challenges.insert? row with
      | none => (none, challenges)
      | some challenges' => (some (), challenges')
  | .claim id kind userId =>
      -- `user_id IS NOT DISTINCT FROM $3`: NULL matches NULL
      let valid := fun c : Challenge ↦
        decide (c.id = id) &&
          (decide (c.kind = kind) && decide (c.userId = userId) && decide (now < c.expiresAt))
      (some ((challenges.find? valid).map Challenge.stateJson), challenges.deleteWhere valid)

theorem ChallengeSql.get?_run {now : Time} {challenges : Table Challenge.id} {q : ChallengeSql}
    {id : String} {c : Challenge} (hc : (q.run now challenges).2.get? id = some c) :
    challenges.get? id = some c ∨ q = .insert c := by
  cases q with
  | insert row =>
      simp only [run] at hc
      split at hc
      · exact .inl hc
      · next hinsert =>
        obtain ⟨-, hget⟩ := Table.insert?_eq_some hinsert
        dsimp only at hc
        rw [hget] at hc
        split at hc
        · exact .inr (Option.some.inj hc ▸ rfl)
        · exact .inl hc
  | deleteExpired cutoff => exact .inl (Table.get?_of_get?_deleteWhere hc)
  | claim id kind userId => exact .inl (Table.get?_of_get?_deleteWhere hc)

/-- What a ceremony gets is the challenge of that id, kind and owner, which is not expired and
is gone afterwards. -/
theorem ChallengeSql.claim_eq_some {now : Time} {challenges : Table Challenge.id} {id : String}
    {kind : ChallengeKind} {userId : Option Uuid} {state : String}
    (h : ((ChallengeSql.claim id kind userId).run now challenges).1 = some (some state)) :
    ∃ c, challenges.get? id = some c ∧ c.stateJson = state ∧ c.kind = kind ∧ c.userId = userId ∧
      now < c.expiresAt ∧
        ((ChallengeSql.claim id kind userId).run now challenges).2.get? id = none := by
  obtain ⟨c, hfind, rfl⟩ := Option.map_eq_some_iff.mp (Option.some.inj h)
  rw [Table.find?_key challenges id fun c ↦ decide (c.kind = kind) && decide (c.userId = userId) &&
    decide (now < c.expiresAt)] at hfind
  obtain ⟨hget, hvalid⟩ := Option.filter_eq_some_iff.mp hfind
  have hid : c.id = id := Table.key_of_get? hget
  simp only [Bool.and_eq_true, decide_eq_true_eq] at hvalid
  obtain ⟨⟨hkind, howner⟩, hlive⟩ := hvalid
  refine ⟨c, hget, rfl, hkind, howner, hlive, ?_⟩
  simp only [run]
  rw [Table.get?_deleteWhere, hget]
  simp_all

/-! ## qr_sessions -/

/-- After this many wrong verification codes the session is cancelled. -/
def maxCodeAttempts : ℤ := 3

inductive QrSql
  | deleteExpired (cutoff : Time)
  | insert (id secretHash code : String) (requesterIp requesterAgent : Option String)
      (expiresAt createdAt : Time)
  | find (id : String)
  | markScanned (id : String) (userId : Uuid)
  | resolve (id : String) (userId : Uuid) (target : QrStatus)
  | recordWrongCode (id : String)
  | consume (id : String)

@[reducible] def QrSql.Res : QrSql → Type
  | .deleteExpired _ => Unit
  | .insert .. => Unit
  | .find _ => Option QrSession
  | .markScanned .. => Bool
  | .resolve .. => Bool
  | .recordWrongCode _ => Bool
  | .consume _ => Option Uuid

/-- `status = 'pending' AND expires_at > now` -/
def QrSession.scannable (now : Time) (s : QrSession) : Bool :=
  decide (s.status = .pending) && decide (now < s.expiresAt)

/-- `status = 'scanned' AND user_id = $1 AND expires_at > now` -/
def QrSession.resolvable (userId : Uuid) (now : Time) (s : QrSession) : Bool :=
  decide (s.status = .scanned) && decide (s.userId = some userId) && decide (now < s.expiresAt)

/-- `status = 'approved' AND expires_at > now` -/
def QrSession.consumable (now : Time) (s : QrSession) : Bool :=
  decide (s.status = .approved) && decide (now < s.expiresAt)

def QrSession.withWrongCode (s : QrSession) : QrSession :=
  { s with
    attempts := s.attempts + 1
    status := if s.attempts + 1 ≥ maxCodeAttempts then .rejected else s.status }

@[simp] theorem QrSession.id_withWrongCode (s : QrSession) : s.withWrongCode.id = s.id := rfl

def QrSql.run (now : Time) (sessions : Table QrSession.id) :
    (q : QrSql) → Option q.Res × Table QrSession.id
  | .deleteExpired cutoff => (some (), sessions.deleteWhere fun s ↦ s.expiresAt < cutoff)
  | .insert id secretHash code requesterIp requesterAgent expiresAt createdAt =>
      match sessions.insert?
        ⟨id, secretHash, code, .pending, none, requesterIp, requesterAgent, 0, expiresAt,
          createdAt⟩ with
      | none => (none, sessions)
      | some sessions' => (some (), sessions')
  | .find id => (some (sessions.get? id), sessions)
  | .markScanned id userId =>
      let valid := fun s : QrSession ↦ decide (s.id = id) && s.scannable now
      (some (sessions.countWhere valid = 1),
        sessions.updateWhere valid (fun s ↦ { s with status := .scanned, userId := some userId })
          fun _ ↦ rfl)
  | .resolve id userId target =>
      let valid := fun s : QrSession ↦ decide (s.id = id) && s.resolvable userId now
      (some (sessions.countWhere valid = 1),
        sessions.updateWhere valid (fun s ↦ { s with status := target }) fun _ ↦ rfl)
  | .recordWrongCode id =>
      let valid := fun s : QrSession ↦ decide (s.id = id) && decide (s.status = .scanned)
      (some ((sessions.find? valid).map (fun s ↦ s.withWrongCode.status) = some .rejected),
        sessions.updateWhere valid QrSession.withWrongCode QrSession.id_withWrongCode)
  | .consume id =>
      let valid := fun s : QrSession ↦ decide (s.id = id) && s.consumable now
      -- a NULL `user_id` does not decode
      match sessions.find? valid with
      | none => (some none, sessions)
      | some s =>
          (s.userId.map some,
            sessions.updateWhere valid (fun s ↦ { s with status := .consumed }) fun _ ↦ rfl)

/-! ### What a statement does to one session -/

/-- A session after a statement; `none` when it was deleted. -/
def QrSql.onRow (now : Time) (s : QrSession) : QrSql → Option QrSession
  | .deleteExpired cutoff => if s.expiresAt < cutoff then none else some s
  | .insert .. | .find _ => some s
  | .markScanned id userId =>
      some (if decide (s.id = id) && s.scannable now then
        { s with status := .scanned, userId := some userId } else s)
  | .resolve id userId target =>
      some (if decide (s.id = id) && s.resolvable userId now then
        { s with status := target } else s)
  | .recordWrongCode id =>
      some (if decide (s.id = id) && decide (s.status = .scanned) then s.withWrongCode else s)
  | .consume id =>
      some (if decide (s.id = id) && s.consumable now then { s with status := .consumed } else s)

theorem QrSql.get?_run {now : Time} {sessions : Table QrSession.id} {id : String} {s : QrSession}
    (h : sessions.get? id = some s) (q : QrSql) :
    (q.run now sessions).2.get? id = q.onRow now s := by
  cases q with
  | deleteExpired cutoff =>
      simp only [run, onRow]
      rw [Table.get?_deleteWhere, h]
      by_cases hlt : s.expiresAt < cutoff <;> simp [hlt]
  | insert id' hash code ip agent expires created =>
      simp only [run, onRow]
      split
      · exact h
      · next hinsert =>
        obtain ⟨hnone, hget⟩ := Table.insert?_eq_some hinsert
        dsimp only
        rw [hget, if_neg, h]
        rintro rfl
        simp [hnone] at h
  | find id' => exact h
  | markScanned id' userId =>
      simp only [run, onRow]
      rw [Table.get?_updateWhere_some h]
  | resolve id' userId target =>
      simp only [run, onRow]
      rw [Table.get?_updateWhere_some h]
  | recordWrongCode id' =>
      simp only [run, onRow]
      rw [Table.get?_updateWhere_some h]
  | consume id' =>
      simp only [run, onRow]
      split
      · next hnone =>
        -- nothing to consume, so this session is not consumable either
        rw [if_neg, h]
        rw [Table.find?_eq_none.mp hnone s (Table.mem_of_get? h)]
        exact Bool.false_ne_true
      · dsimp only
        rw [Table.get?_updateWhere_some h]

/-- A new session is pending and nobody's. -/
theorem QrSql.get?_run_none {now : Time} {sessions : Table QrSession.id} {id : String}
    (h : sessions.get? id = none) {q : QrSql} {s : QrSession}
    (hs : (q.run now sessions).2.get? id = some s) :
    ∃ hash code ip agent expires created, q = .insert id hash code ip agent expires created ∧
      s = ⟨id, hash, code, .pending, none, ip, agent, 0, expires, created⟩ := by
  cases q with
  | insert id' hash code ip agent expires created =>
      simp only [run] at hs
      split at hs
      · simp [h] at hs
      · next hinsert =>
        obtain ⟨-, hget⟩ := Table.insert?_eq_some hinsert
        dsimp only at hs
        rw [hget, h] at hs
        split at hs
        · next hid =>
          obtain rfl : id' = id := hid
          exact ⟨hash, code, ip, agent, expires, created, rfl, (Option.some.inj hs).symm⟩
        · cases hs
  | deleteExpired cutoff =>
      simp only [run] at hs
      rw [Table.get?_deleteWhere, h] at hs
      cases hs
  | find id' => simp [run, h] at hs
  | consume id' =>
      simp only [run] at hs
      split at hs
      · simp [h] at hs
      · dsimp only at hs
        rw [Table.get?_updateWhere_none h] at hs
        cases hs
  | _ =>
      simp only [run] at hs
      rw [Table.get?_updateWhere_none h] at hs
      cases hs

/-- The moves of a session, and the statements that make them. -/
inductive QrSession.Moves (now : Time) (s : QrSession) : QrSql → QrSession → Prop
  | stays (q : QrSql) : s.Moves now q s
  | scanned (userId : Uuid) (h : s.scannable now = true) :
      s.Moves now (.markScanned s.id userId) { s with status := .scanned, userId := some userId }
  | resolved (userId : Uuid) (target : QrStatus) (h : s.resolvable userId now = true) :
      s.Moves now (.resolve s.id userId target) { s with status := target }
  | miscoded (h : s.status = .scanned) : s.Moves now (.recordWrongCode s.id) s.withWrongCode
  | consumed (h : s.consumable now = true) :
    s.Moves now (.consume s.id) { s with status := .consumed }

theorem QrSql.moves_of_onRow {now : Time} {s s' : QrSession} {q : QrSql}
    (h : q.onRow now s = some s') : s.Moves now q s' := by
  cases q with
  | deleteExpired cutoff =>
      simp only [onRow] at h
      split at h
      · cases h
      · cases h
        exact .stays _
  | insert => cases h; exact .stays _
  | find => cases h; exact .stays _
  | markScanned id userId =>
      cases h
      split
      · next hboth =>
        obtain ⟨hid, hvalid⟩ := (Bool.and_eq_true _ _).mp hboth
        exact of_decide_eq_true hid ▸ .scanned userId hvalid
      · exact .stays _
  | resolve id userId target =>
      cases h
      split
      · next hboth =>
        obtain ⟨hid, hvalid⟩ := (Bool.and_eq_true _ _).mp hboth
        exact of_decide_eq_true hid ▸ .resolved userId target hvalid
      · exact .stays _
  | recordWrongCode id =>
      cases h
      split
      · next hboth =>
        obtain ⟨hid, hvalid⟩ := (Bool.and_eq_true _ _).mp hboth
        exact of_decide_eq_true hid ▸ .miscoded (of_decide_eq_true hvalid)
      · exact .stays _
  | consume id =>
      cases h
      split
      · next hboth =>
        obtain ⟨hid, hvalid⟩ := (Bool.and_eq_true _ _).mp hboth
        exact of_decide_eq_true hid ▸ .consumed hvalid
      · exact .stays _

theorem QrSql.consume_eq_some {now : Time} {sessions : Table QrSession.id} {id : String} {u : Uuid}
    (h : ((QrSql.consume id).run now sessions).1 = some (some u)) :
    ∃ r, sessions.get? id = some r ∧ r.consumable now = true ∧ r.userId = some u := by
  simp only [QrSql.run] at h
  split at h
  · simp at h
  · next r hfind =>
    rw [Table.find?_key] at hfind
    obtain ⟨hget, hvalid⟩ := Option.filter_eq_some_iff.mp hfind
    exact ⟨r, hget, hvalid, by simpa using h⟩

end ApiStarter
