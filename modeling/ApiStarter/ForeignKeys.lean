import ApiStarter.AccessControl

/-!
# The database stays consistent

The tables of links, recovery codes, OAuth states, identities, grants, passkeys,
challenges, QR sessions and API keys refer to `users` with a foreign key.  No
statement of a request ever asks for a reference to an account that is not
there: what a request has shown before it writes a row names an account,
accounts are never removed, and states and identities hand on the references
they have.  A QR session has its account as soon as it was scanned.
-/

namespace ApiStarter

open Interleave Interleave.Prog Relational

/-! ## References -/

def Db.HasUser (db : Db) (u : Uuid) : Prop := ∃ row, db.users.get? u = some row

/-- The foreign keys of the tables, and that only a pending QR session has no account. -/
structure Db.Consistent (db : Db) : Prop where
  tokens : ∀ t ∈ db.authTokens, db.HasUser t.userId
  recoveryCodes : ∀ code ∈ db.recoveryCodes, db.HasUser code.userId
  states : ∀ st ∈ db.oauthStates, ∀ u, st.userId = some u → db.HasUser u
  identities : ∀ identity ∈ db.oauthIdentities, db.HasUser identity.userId
  grants : ∀ g ∈ db.loginGrants, db.HasUser g.userId
  passkeys : ∀ passkey ∈ db.passkeys, db.HasUser passkey.userId
  challenges : ∀ challenge ∈ db.challenges, ∀ u, challenge.userId = some u → db.HasUser u
  sessions : ∀ session ∈ db.qrSessions, ∀ u, session.userId = some u → db.HasUser u
  scanned : ∀ session ∈ db.qrSessions, session.status ≠ .pending → session.userId ≠ none
  apiKeys : ∀ key ∈ db.apiKeys, db.HasUser key.userId

/-- The accounts that the rows a statement writes refer to. -/
def Sql.refersTo : Sql → List Uuid
  | .authTokens (.insert u ..) => [u]
  | .recoveryCodes (.replaceAll u _ _) => [u]
  | .oauthStates (.insert row) => row.userId.toList
  | .oauthIdentities (.insert u ..) => [u]
  | .loginGrants (.insert row) => [row.userId]
  | .passkeys (.insert _ u ..) => [u]
  | .challenges (.insert row) => row.userId.toList
  | .qrSessions (.markScanned _ u) => [u]
  | _ => []

section Statements

variable {now : Time} {db : Db} {u : Uuid}

theorem Db.HasUser.run (h : db.HasUser u) (q : Sql) : (q.run now db).2.HasUser u := by
  obtain ⟨row, hrow⟩ := h
  cases q with
  | users q => exact ⟨_, UsersSql.get?_run hrow q⟩
  | _ => exact ⟨row, hrow⟩

theorem AuthTokenSql.userId_run {tokens : Table AuthToken.tokenHash} {q : AuthTokenSql}
    {t : AuthToken} (ht : t ∈ (q.run now tokens).2) :
    (∃ t₀ ∈ tokens, t₀.userId = t.userId) ∨ t.userId ∈ Sql.refersTo (.authTokens q) := by
  cases hold : tokens.get? t.tokenHash with
  | none =>
      obtain ⟨u, purpose, newEmail, expiresAt, rfl, heq⟩ :=
        AuthTokenSql.get?_run_none hold (Table.get?_of_mem ht)
      rw [heq]
      exact .inr List.mem_cons_self
  | some t₀ =>
      refine .inl ⟨t₀, Table.mem_of_get? hold, ?_⟩
      rcases AuthTokenSql.get?_run hold (Table.get?_of_mem ht) with heq | heq
      · rw [heq]
      · rw [heq]
        rfl

theorem RecoveryCodeSql.userId_run {codes : List RecoveryCode} {q : RecoveryCodeSql}
    {code : RecoveryCode} (hcode : code ∈ (q.run now codes).2) :
    (∃ code₀ ∈ codes, code₀.userId = code.userId) ∨
      code.userId ∈ Sql.refersTo (.recoveryCodes q) := by
  cases q with
  | lockAll u => exact .inl ⟨code, hcode, rfl⟩
  | replaceAll u found hashes =>
      rcases List.mem_append.mp hcode with hold | hnew
      · exact .inl ⟨code, (List.mem_filter.mp hold).1, rfl⟩
      · obtain ⟨hash, -, rfl⟩ := List.mem_map.mp hnew
        exact .inr List.mem_cons_self
  | claim u hash =>
      obtain ⟨code₀, hmem, rfl⟩ := List.mem_map.mp hcode
      refine .inl ⟨code₀, hmem, ?_⟩
      split <;> rfl
  | deleteAll u => exact .inl ⟨code, (List.mem_filter.mp hcode).1, rfl⟩

theorem OAuthStateSql.mem_run {states : Table OAuthState.stateHash} {q : OAuthStateSql}
    {st : OAuthState} (hst : st ∈ (q.run now states).2) : st ∈ states ∨ q = .insert st := by
  rcases OAuthStateSql.get?_run (Table.get?_of_mem hst) with hold | heq
  · exact .inl (Table.mem_of_get? hold)
  · exact .inr heq

theorem ChallengeSql.mem_run {challenges : Table Challenge.id} {q : ChallengeSql}
    {challenge : Challenge} (h : challenge ∈ (q.run now challenges).2) :
    challenge ∈ challenges ∨ q = .insert challenge := by
  rcases ChallengeSql.get?_run (Table.get?_of_mem h) with hold | heq
  · exact .inl (Table.mem_of_get? hold)
  · exact .inr heq

theorem LoginGrantSql.userId_run {grants : Table LoginGrant.codeHash} {q : LoginGrantSql}
    {g : LoginGrant} (hg : g ∈ (q.run now grants).2) :
    (∃ g₀ ∈ grants, g₀.userId = g.userId) ∨ g.userId ∈ Sql.refersTo (.loginGrants q) := by
  cases q with
  | insert row =>
      simp only [run] at hg
      split at hg
      · exact .inl ⟨g, hg, rfl⟩
      next hinsert =>
        rcases (Table.mem_insert? hinsert).mp hg with hold | rfl
        · exact .inl ⟨g, hold, rfl⟩
        · exact .inr List.mem_cons_self
  | claim hash =>
      simp only [run, Table.mem_updateWhere] at hg
      obtain ⟨g₀, hmem, rfl⟩ := hg
      refine .inl ⟨g₀, hmem, ?_⟩
      split <;> rfl
  | deleteExpired cutoff => exact .inl ⟨g, (Table.mem_deleteWhere.mp hg).1, rfl⟩

theorem OAuthIdentitySql.userId_run {identities : Table OAuthIdentity.key} {q : OAuthIdentitySql}
    {identity : OAuthIdentity} (h : identity ∈ (q.run now identities).2) :
    (∃ identity₀ ∈ identities, identity₀.userId = identity.userId) ∨
      identity.userId ∈ Sql.refersTo (.oauthIdentities q) := by
  cases q with
  | insert u provider x email =>
      simp only [run] at h
      split at h
      · exact .inl ⟨identity, h, rfl⟩
      next hinsert =>
        rcases (Table.mem_insert? hinsert).mp h with hold | rfl
        · exact .inl ⟨identity, hold, rfl⟩
        · exact .inr List.mem_cons_self
  | delete u provider => exact .inl ⟨identity, (Table.mem_deleteWhere.mp h).1, rfl⟩
  | find provider x => exact .inl ⟨identity, h, rfl⟩
  | list u => exact .inl ⟨identity, h, rfl⟩

theorem PasskeySql.userId_run {passkeys : Table PasskeyRow.id} {q : PasskeySql}
    {passkey : PasskeyRow} (h : passkey ∈ (q.run now passkeys).2) :
    (∃ passkey₀ ∈ passkeys, passkey₀.userId = passkey.userId) ∨
      passkey.userId ∈ Sql.refersTo (.passkeys q) := by
  cases q with
  | insert id u name credentialId credentialJson =>
      simp only [run] at h
      split at h
      · exact .inl ⟨passkey, h, rfl⟩
      split at h
      · exact .inl ⟨passkey, h, rfl⟩
      next hinsert =>
        rcases (Table.mem_insert? hinsert).mp h with hold | rfl
        · exact .inl ⟨passkey, hold, rfl⟩
        · exact .inr List.mem_cons_self
  | updateAfterUse id credentialJson =>
      simp only [run, Table.mem_updateWhere] at h
      obtain ⟨passkey₀, hmem, rfl⟩ := h
      refine .inl ⟨passkey₀, hmem, ?_⟩
      split <;> rfl
  | delete u id => exact .inl ⟨passkey, (Table.mem_deleteWhere.mp h).1, rfl⟩
  | listByUser u => exact .inl ⟨passkey, h, rfl⟩

theorem ApiKeySql.userId_run {keys : Table ApiKey.id} {q : ApiKeySql} {key : ApiKey}
    (h : key ∈ (q.run keys).2) : ∃ key₀ ∈ keys, key₀.userId = key.userId := by
  cases q with
  | findByHash hash => exact ⟨key, h, rfl⟩
  | touch id instant =>
      simp only [run, Table.mem_updateWhere] at h
      obtain ⟨key₀, hmem, rfl⟩ := h
      refine ⟨key₀, hmem, ?_⟩
      split <;> rfl

theorem QrSql.owned_run {sessions : Table QrSession.id} {q : QrSql} {session : QrSession}
    (hscanned : ∀ r ∈ sessions, r.status ≠ .pending → r.userId ≠ none)
    (h : session ∈ (q.run now sessions).2) :
    (session.status ≠ .pending → session.userId ≠ none) ∧ ∀ u, session.userId = some u →
      (∃ r ∈ sessions, r.userId = some u) ∨ u ∈ Sql.refersTo (.qrSessions q) := by
  have hget := Table.get?_of_mem h
  cases hold : sessions.get? session.id with
  | none =>
      obtain ⟨hash, code, ip, agent, expires, created, rfl, heq⟩ := QrSql.get?_run_none hold hget
      rw [heq]
      exact ⟨fun hne ↦ absurd rfl hne, by rintro u ⟨⟩⟩
  | some r =>
      have hr := Table.mem_of_get? hold
      have hmoves := QrSql.moves_of_onRow ((QrSql.get?_run hold q).symm.trans hget)
      -- the moves after the scan keep the account
      have kept (hstatus : r.status ≠ .pending) (hsame : session.userId = r.userId) :
          (session.status ≠ .pending → session.userId ≠ none) ∧ ∀ u, session.userId = some u →
            (∃ r ∈ sessions, r.userId = some u) ∨ u ∈ Sql.refersTo (.qrSessions q) := by
        rw [hsame]
        exact ⟨fun _ ↦ hscanned r hr hstatus, fun u hu ↦ .inl ⟨r, hr, hu⟩⟩
      generalize session = session' at hmoves kept ⊢
      cases hmoves with
      | stays => exact ⟨hscanned r hr, fun u hu ↦ .inl ⟨r, hr, hu⟩⟩
      | scanned u hvalid =>
          refine ⟨fun _ ↦ Option.some_ne_none u, fun v hv ↦ .inr ?_⟩
          rw [← Option.some.inj hv]
          exact List.mem_cons_self
      | resolved u target hvalid =>
          simp only [QrSession.resolvable, Bool.and_eq_true, decide_eq_true_eq] at hvalid
          exact kept (by simp [hvalid.1.1]) rfl
      | miscoded hvalid => exact kept (by simp [hvalid]) rfl
      | consumed hvalid =>
          simp only [QrSession.consumable, Bool.and_eq_true, decide_eq_true_eq] at hvalid
          exact kept (by simp [hvalid.1]) rfl

/-- A statement that asks for no missing reference keeps the database consistent. -/
theorem Db.Consistent.run (h : db.Consistent) {q : Sql} (hq : ∀ u ∈ q.refersTo, db.HasUser u) :
    (q.run now db).2.Consistent := by
  have hkept : ∀ u, db.HasUser u → (q.run now db).2.HasUser u := fun u hu ↦ hu.run q
  constructor
  case tokens =>
    intro t ht
    cases q with
    | authTokens q =>
        rcases AuthTokenSql.userId_run ht with ⟨t₀, hmem, heq⟩ | hnew
        · exact hkept _ (heq ▸ h.tokens t₀ hmem)
        · exact hkept _ (hq _ hnew)
    | _ => exact hkept _ (h.tokens t ht)
  case recoveryCodes =>
    intro code hcode
    cases q with
    | recoveryCodes q =>
        rcases RecoveryCodeSql.userId_run hcode with ⟨code₀, hmem, heq⟩ | hnew
        · exact hkept _ (heq ▸ h.recoveryCodes code₀ hmem)
        · exact hkept _ (hq _ hnew)
    | _ => exact hkept _ (h.recoveryCodes code hcode)
  case states =>
    intro st hst u hu
    cases q with
    | oauthStates q =>
        rcases OAuthStateSql.mem_run hst with hold | rfl
        · exact hkept _ (h.states st hold u hu)
        · exact hkept _ (hq u (Option.mem_toList.mpr hu))
    | _ => exact hkept _ (h.states st hst u hu)
  case identities =>
    intro identity hidentity
    cases q with
    | oauthIdentities q =>
        rcases OAuthIdentitySql.userId_run hidentity with ⟨identity₀, hmem, heq⟩ | hnew
        · exact hkept _ (heq ▸ h.identities identity₀ hmem)
        · exact hkept _ (hq _ hnew)
    | _ => exact hkept _ (h.identities identity hidentity)
  case grants =>
    intro g hg
    cases q with
    | loginGrants q =>
        rcases LoginGrantSql.userId_run hg with ⟨g₀, hmem, heq⟩ | hnew
        · exact hkept _ (heq ▸ h.grants g₀ hmem)
        · exact hkept _ (hq _ hnew)
    | _ => exact hkept _ (h.grants g hg)
  case passkeys =>
    intro passkey hpasskey
    cases q with
    | passkeys q =>
        rcases PasskeySql.userId_run hpasskey with ⟨passkey₀, hmem, heq⟩ | hnew
        · exact hkept _ (heq ▸ h.passkeys passkey₀ hmem)
        · exact hkept _ (hq _ hnew)
    | _ => exact hkept _ (h.passkeys passkey hpasskey)
  case challenges =>
    intro challenge hchallenge u hu
    cases q with
    | challenges q =>
        rcases ChallengeSql.mem_run hchallenge with hold | rfl
        · exact hkept _ (h.challenges challenge hold u hu)
        · exact hkept _ (hq u (Option.mem_toList.mpr hu))
    | _ => exact hkept _ (h.challenges challenge hchallenge u hu)
  case sessions =>
    intro session hsession u hu
    cases q with
    | qrSessions q =>
        rcases (QrSql.owned_run h.scanned hsession).2 u hu with ⟨r, hmem, hold⟩ | hnew
        · exact hkept _ (h.sessions r hmem u hold)
        · exact hkept _ (hq u hnew)
    | _ => exact hkept _ (h.sessions session hsession u hu)
  case scanned =>
    intro session hsession
    cases q with
    | qrSessions q => exact (QrSql.owned_run h.scanned hsession).1
    | _ => exact h.scanned session hsession
  case apiKeys =>
    intro key hkey
    cases q with
    | apiKeys q =>
        obtain ⟨key₀, hmem, heq⟩ := ApiKeySql.userId_run hkey
        exact hkept _ (heq ▸ h.apiKeys key₀ hmem)
    | _ => exact hkept _ (h.apiKeys key hkey)

end Statements

/-! ## What a request has shown names an account -/

/-- A step of the thread found the account or left it there. -/
def Known (cx : Context) (u : Uuid) (own : List AppEvent) : Prop :=
  ∃ e ∈ own, e.store.db.HasUser u ∨ e.Ran fun q s ↦ ((machine cx).exec q s).2.db.HasUser u

section Shown

variable {cx : Context} {k : Request} {u : Uuid} {own : List AppEvent}

theorem Known.mono {own' : List AppEvent} (h : Known cx u own) (hown : own ⊆ own') :
    Known cx u own' := by
  obtain ⟨e, he, hthere⟩ := h
  exact ⟨e, hown he, hthere⟩

theorem known_of_seen {p : User → Prop} (h : Seen (userIs u p) own) : Known cx u own := by
  obtain ⟨e, he, row, hrow, -⟩ := h
  exact ⟨e, he, .inl ⟨row, hrow⟩⟩

theorem SessionOf.known (h : SessionOf cx k u own) : Known cx u own := by
  obtain ⟨claims, -, rfl, -, e, he, haccepts⟩ := h
  obtain ⟨row, hrow, -⟩ := accepts_iff.mp haccepts
  exact ⟨e, he, .inl ⟨row, hrow⟩⟩

theorem SpeaksFor.known (h : SpeaksFor cx k u own) : Known cx u own := by
  rcases h with hsession | ⟨raw, key, -, -, -, -, -, -, howner⟩
  · exact hsession.known
  · exact known_of_seen howner

theorem NamedBy.known (h : NamedBy cx k u own) : Known cx u own := by
  obtain ⟨address, -, hseen⟩ := h
  exact known_of_seen hseen

theorem known_of_creates {email : String} {e : AppEvent} (he : e ∈ own)
    (h : Creates cx u email e) : Known cx u own := by
  refine ⟨e, he, .inr ?_⟩
  cases e with
  | answered => exact h.elim
  | ran i k q b =>
      obtain ⟨-, -, row, hrow, -⟩ := h
      exact ⟨row, hrow⟩

theorem Made.known (h : Made cx u own) : Known cx u own := by
  obtain ⟨e, he, email, hcreates⟩ := h
  exact known_of_creates he hcreates

theorem IssueWarrant.known {purpose : TokenPurpose} (h : IssueWarrant cx k own u purpose) :
    Known cx u own := by
  cases purpose with
  | emailVerification => exact h.elim Made.known SpeaksFor.known
  | passwordReset => exact h.elim NamedBy.known fun hmade ↦ hmade.1.known
  | emailChange => exact h.1.known
  | twoFactorPending => exact h.1.known

/-- Before and after the thread's own steps the database was consistent. -/
def AllConsistent (cx : Context) (own : List AppEvent) : Prop :=
  ∀ e ∈ own, e.store.db.Consistent ∧
    ∀ i k q b, e = .ran i k q b → ((machine cx).exec q b).2.db.Consistent

theorem Vouched.known {provider : Provider} {profile : ProviderProfile}
    (hall : AllConsistent cx own) (h : Vouched cx provider profile u own) : Known cx u own := by
  rcases h with ⟨e, he, st, hclaimed, -, huser⟩ | ⟨email, -, e, he, hfinds | hcreates⟩
  · unfold claimedState at hclaimed
    split at hclaimed
    next i k hash b =>
      obtain ⟨hget, -⟩ := Option.filter_eq_some_iff.mp hclaimed
      exact ⟨_, he, .inl ((hall _ he).1.states st (Table.mem_of_get? hget) u huser)⟩
    next => cases hclaimed
  · cases e with
    | answered => exact hfinds.elim
    | ran i k q b =>
        obtain ⟨-, row, hrow, -⟩ := hfinds
        exact ⟨_, he, .inl ⟨row, hrow⟩⟩
  · exact known_of_creates he hcreates

theorem known_of_leavesHeld {provider : Provider} {x : String} {e : AppEvent} (he : e ∈ own)
    (hall : AllConsistent cx own) (h : LeavesHeld cx provider x u e) : Known cx u own := by
  cases e with
  | answered => exact h.elim
  | ran i k q b =>
      obtain ⟨row, hget, rfl⟩ := h
      refine ⟨_, he, .inr ?_⟩
      exact ((hall _ he).2 i k q b rfl).identities row (Table.mem_of_get? hget)

/-- Every reference a warranted statement asks for names an account its thread has met. -/
theorem known_of_refersTo {q : Sql} (hall : AllConsistent cx own) (h : q.Warrant cx k own)
    (hu : u ∈ q.refersTo) : Known cx u own := by
  unfold Sql.refersTo at hu
  split at hu
  next =>
    obtain rfl := List.mem_singleton.mp hu
    exact IssueWarrant.known h
  next =>
    obtain rfl := List.mem_singleton.mp hu
    exact SessionOf.known h
  next => exact (h u (Option.mem_toList.mp hu)).known
  next =>
    obtain rfl := List.mem_singleton.mp hu
    obtain ⟨query, profile, -, -, hvouched⟩ := h
    exact hvouched.known hall
  next =>
    obtain rfl := List.mem_singleton.mp hu
    obtain ⟨provider, query, profile, -, e, he, hleaves⟩ := h
    exact known_of_leavesHeld he hall hleaves
  next =>
    obtain rfl := List.mem_singleton.mp hu
    exact SessionOf.known h
  next => exact (h u (Option.mem_toList.mp hu)).known
  next =>
    obtain rfl := List.mem_singleton.mp hu
    exact SessionOf.known h
  next => cases hu

end Shown

/-! ## All runs -/

/-- No statement asks for a reference to a missing account. -/
def ReferencesFound (W : AppWorld) : Prop :=
  ∀ i k q b, .ran i k (.sql q) b ∈ W.history → ∀ u ∈ q.refersTo, b.db.HasUser u

section Runs

variable {cx : Context} {s : Server} {c : AppConfig}

/-- An account a thread has met is there from then on. -/
theorem Reached.hasUser_of_known (hc : Reached cx s c) {u : Uuid} {i : ℕ}
    (h : Known cx u (ownEvents i c.world.history)) : c.world.store.db.HasUser u := by
  have hlasting : ∀ q t, t.db.HasUser u → ((machine cx).exec q t).2.db.HasUser u := by
    intro q t ht
    cases q with
    | sql q => exact ht.run q
    | _ => exact ht
  obtain ⟨e, he, hknown⟩ := h
  obtain ⟨later, earlier, hhist⟩ := List.append_of_mem (mem_ownEvents.mp he).1
  rcases hknown with hbefore | hafter
  · exact hc.live_of_lasting (fun t ↦ t.db.HasUser u) (fun _ _ ↦ Iff.rfl) hlasting hhist hbefore
  · exact hc.live_of_made (fun t ↦ t.db.HasUser u) (fun _ _ ↦ Iff.rfl) hlasting hhist hafter

theorem Reached.consistent_of_found (hc : Reached cx s c) (hs : s.db.Consistent)
    (hfound : ReferencesFound c.world) : c.world.store.db.Consistent := by
  refine hc.live_of_start (fun t ↦ t.db.Consistent) (fun _ _ ↦ Iff.rfl) hs fun x hx hlive hend ↦ ?_
  cases x with
  | answered => exact hend
  | ran i k q b =>
      cases q with
      | sql q => exact hend (hlive.run (hfound i k q b hx))
      | _ => exact hend hlive

theorem Reached.consistent_and_found (hc : Reached cx s c) (hs : s.db.Consistent) :
    c.world.store.db.Consistent ∧ ReferencesFound c.world := by
  -- what a thread has shown rests on the earlier states, so the induction is on the whole past
  induction hlength : c.world.history.length using Nat.strongRecOn generalizing c with
  | ind n ih =>
      have hfound : ReferencesFound c.world := by
        intro i k q b hmem u hu
        obtain ⟨later, earlier, hhist⟩ := List.append_of_mem hmem
        obtain ⟨d, hd, hworld⟩ := hc.past hhist
        have hearlier : d.world.history = earlier := by rw [hworld]
        have hshorter : d.world.history.length < n := by
          rw [← hlength, hhist, hearlier]
          simp
          omega
        have hpast := (ih _ hshorter hd rfl).2
        have hall : AllConsistent cx (ownEvents i earlier) := by
          intro e he
          obtain ⟨l₁, l₂, hsplit⟩ := List.append_of_mem (mem_ownEvents.mp he).1
          obtain ⟨d', hd', hworld'⟩ := hd.past (hearlier.trans hsplit)
          have hbefore : e.store.db.Consistent := by
            have hconsistent := (ih d'.world.history.length (by
              rw [← hlength, hhist, hworld', hsplit]
              simp
              omega) hd' rfl).1
            rwa [hworld'] at hconsistent
          refine ⟨hbefore, ?_⟩
          rintro j k' q' b' rfl
          cases q' with
          | sql q' =>
              refine hbefore.run (hpast j k' q' b' ?_)
              rw [hearlier, hsplit]
              simp
          | _ => exact hbefore
        have hwarrant : q.Warrant cx k (ownEvents i earlier) := hc.warranted hhist
        have hknown := known_of_refersTo hall hwarrant hu
        have hthere := Reached.hasUser_of_known hd (hearlier.symm ▸ hknown)
        rwa [hworld] at hthere
      exact ⟨hc.consistent_of_found hs hfound, hfound⟩

/-- In every run from a consistent database the foreign keys hold, and no statement would ever be
refused by one. -/
theorem references_found (hc : Reached cx s c) (hs : s.db.Consistent) :
    c.world.store.db.Consistent ∧ ReferencesFound c.world := hc.consistent_and_found hs

end Runs

/-- A device asks for a session, Ada scans and approves it, and the device collects its token. -/
theorem references_found_scanned : ∃ c, Reached .sample QrSample.start c ∧
    c.world.store.db.qrSessions.rows.length = 1 ∧ c.world.store.db.Consistent ∧
      ReferencesFound c.world := by
  let test : AppConfig → Bool := fun c ↦ decide (c.world.store.db.qrSessions.rows.length = 1)
  obtain ⟨c, hc, htest⟩ : ∃ c, Reached .sample QrSample.start c ∧ test c = true :=
    Reachable.of_schedule QrSample.schedule test (by decide) (by decide)
  have hstart : QrSample.start.db.Consistent := by constructor <;> rintro row ⟨⟩
  exact ⟨c, hc, of_decide_eq_true htest, references_found hc hstart⟩

end ApiStarter
