import ApiStarter.ForeignKeys
import ApiStarter.Freshness

/-!
# Unique keys

A table refuses a second row under a key that it has.  The keys of links, OAuth
states, login grants, challenges, QR sessions and passkeys are made from random
draws, so whatever runs at the same time an insertion finds its key free.
-/

namespace ApiStarter

open Interleave Interleave.Prog Relational

/-- What no two rows of a table may share. -/
inductive Key
  | secret (v : Secret)
  | passkey (id : Uuid)

/-- A row has the key. -/
def Key.InUse (db : Db) : Key → Prop
  | .secret (.link h) => db.authTokens.get? h ≠ none
  | .secret (.state h) => db.oauthStates.get? h ≠ none
  | .secret (.grant h) => db.loginGrants.get? h ≠ none
  | .secret (.challenge id) => db.challenges.get? id ≠ none
  | .secret (.session id) => db.qrSessions.get? id ≠ none
  -- the hashes of recovery codes are in no unique index
  | .secret (.recoveryCode _) => False
  | .passkey id => db.passkeys.get? id ≠ none

def Statement.AddsPasskey : Statement → Uuid → Prop
  | .sql (.passkeys (.insert id ..)), id' => id = id'
  | _, _ => False

/-- The statement inserts a row with the key. -/
def Statement.Inserts (q : Statement) : Key → Prop
  | .secret v => q.Mints v
  | .passkey id => q.AddsPasskey id

/-- What the draw number `n` can become. -/
def Context.KeySource (cx : Context) (n : ℕ) : Key → Prop
  | .secret v => cx.Source n v
  | .passkey id => cx.randomUuid n = id

/-- The draws of the run become keys that differ from each other and from those at the start. -/
structure Context.FreshKeys (cx : Context) (s : Server) (draws : ℕ) : Prop where
  distinct : ∀ key m n, m < draws → n < draws → cx.KeySource m key → cx.KeySource n key → m = n
  notDrawn : ∀ key, key.InUse s.db → ∀ n < draws, ¬cx.KeySource n key

/-! ## One statement -/

section Statements

variable {cx : Context} {s : Server}

theorem PasskeySql.inUse_run {now : Time} {passkeys : Table PasskeyRow.id} {id : Uuid}
    (hfree : passkeys.get? id = none) {q : PasskeySql} {row : PasskeyRow}
    (h : (q.run now passkeys).2.get? id = some row) :
    (Statement.sql (.passkeys q)).AddsPasskey id := by
  have hmissing : row ∉ passkeys := fun hmem ↦
    Table.get?_eq_none_iff.mp hfree row hmem (Table.key_of_get? h)
  cases q with
  | insert id' u name credentialId credentialJson =>
      have hmem := Table.mem_of_get? h
      simp only [run] at hmem
      split at hmem
      · exact absurd hmem hmissing
      split at hmem
      · exact absurd hmem hmissing
      next hinsert =>
        rcases (Table.mem_insert? hinsert).mp hmem with hold | rfl
        · exact absurd hold hmissing
        · exact Table.key_of_get? h
  | updateAfterUse id' credentialJson =>
      simp only [run] at h
      rw [Table.get?_updateWhere_none hfree] at h
      cases h
  | delete u id' => exact absurd (Table.mem_deleteWhere.mp (Table.mem_of_get? h)).1 hmissing
  | listByUser u => exact absurd (Table.mem_of_get? h) hmissing

/-- A key comes into use by an insertion. -/
theorem Key.inUse_exec {key : Key} (hfree : ¬key.InUse s.db) {q : Statement}
    (h : key.InUse ((machine cx).exec q s).2.db) : q.Inserts key := by
  cases q with
  | sql q =>
      cases key with
      | passkey id =>
          obtain ⟨row, hrow⟩ := Option.ne_none_iff_exists'.mp h
          cases q with
          | passkeys q => exact PasskeySql.inUse_run (not_not.mp hfree) hrow
          | _ => exact absurd h hfree
      | secret v =>
          cases v with
          | link hash =>
              obtain ⟨row, hrow⟩ := Option.ne_none_iff_exists'.mp h
              cases q with
              | authTokens q =>
                  obtain ⟨u, purpose, newEmail, expiresAt, rfl, -⟩ :=
                    AuthTokenSql.get?_run_none (not_not.mp hfree) hrow
                  rfl
              | _ => exact absurd h hfree
          | state hash =>
              obtain ⟨row, hrow⟩ := Option.ne_none_iff_exists'.mp h
              cases q with
              | oauthStates q =>
                  rcases OAuthStateSql.get?_run hrow with hold | rfl
                  · exact absurd (fun hnone ↦ by simp [hnone] at hold) hfree
                  · exact Table.key_of_get? hrow
              | _ => exact absurd h hfree
          | grant hash =>
              obtain ⟨row, hrow⟩ := Option.ne_none_iff_exists'.mp h
              cases q with
              | loginGrants q =>
                  have hinsert := LoginGrantSql.get?_run_none (not_not.mp hfree) hrow
                  subst hinsert
                  exact Table.key_of_get? hrow
              | _ => exact absurd h hfree
          | challenge id =>
              obtain ⟨row, hrow⟩ := Option.ne_none_iff_exists'.mp h
              cases q with
              | challenges q =>
                  rcases ChallengeSql.get?_run hrow with hold | rfl
                  · exact absurd (fun hnone ↦ by simp [hnone] at hold) hfree
                  · exact Table.key_of_get? hrow
              | _ => exact absurd h hfree
          | session id =>
              obtain ⟨row, hrow⟩ := Option.ne_none_iff_exists'.mp h
              cases q with
              | qrSessions q =>
                  obtain ⟨hash, code, ip, agent, expires, created, rfl, -⟩ :=
                    QrSql.get?_run_none (not_not.mp hfree) hrow
                  rfl
              | _ => exact absurd h hfree
          | recoveryCode hash => exact h.elim
  | _ => exact absurd h hfree

/-- A statement that the database refuses inserts a key in use, queues a job, counts the sign-in
methods of an account that is not there, or finds that nobody scanned an approved session. -/
theorem Sql.inUse_of_refused {now : Time} {db : Db} {q : Sql} (h : (q.run now db).1 = none) :
    (∃ key, (Statement.sql q).Inserts key ∧ key.InUse db) ∨ (∃ q', q = .jobs q') ∨
      (∃ id, q = .signInMethodCount id ∧ db.users.get? id = none) ∨
      ∃ id, q = .qrSessions (.consume id) ∧
        ∃ row ∈ db.qrSessions, row.status ≠ .pending ∧ row.userId = none := by
  have taken {α κ : Type} [DecidableEq κ] {key : α → κ} {t : Table key} {row : α}
      (hnone : t.insert? row = none) : t.get? (key row) ≠ none :=
    Option.isSome_iff_ne_none.mp (Table.insert?_eq_none.mp hnone)
  cases q with
  | jobs q => exact .inr (.inl ⟨q, rfl⟩)
  | signInMethodCount id =>
      exact .inr (.inr (.inl ⟨id, rfl, by simpa [run, Db.signInMethodCount] using h⟩))
  | users q =>
      cases q <;> simp only [run, UsersSql.run] at h
      all_goals
        repeat' split at h
        all_goals cases h
  | authTokens q =>
      cases q with
      | insert u purpose hash newEmail expiresAt =>
          simp only [run, AuthTokenSql.run] at h
          split at h
          next hnone => exact .inl ⟨.secret (.link hash), rfl, taken hnone⟩
          next => cases h
      | _ => cases h
  | oauthStates q =>
      cases q with
      | insert row =>
          simp only [run, OAuthStateSql.run] at h
          split at h
          next hnone => exact .inl ⟨.secret (.state row.stateHash), rfl, taken hnone⟩
          next => cases h
      | _ => cases h
  | loginGrants q =>
      cases q with
      | insert row =>
          simp only [run, LoginGrantSql.run] at h
          split at h
          next hnone => exact .inl ⟨.secret (.grant row.codeHash), rfl, taken hnone⟩
          next => cases h
      | _ => cases h
  | challenges q =>
      cases q with
      | insert row =>
          simp only [run, ChallengeSql.run] at h
          split at h
          next hnone => exact .inl ⟨.secret (.challenge row.id), rfl, taken hnone⟩
          next => cases h
      | _ => cases h
  | qrSessions q =>
      cases q with
      | insert id hash code ip agent expiresAt createdAt =>
          simp only [run, QrSql.run] at h
          split at h
          next hnone => exact .inl ⟨.secret (.session id), rfl, taken hnone⟩
          next => cases h
      | consume id =>
          simp only [run, QrSql.run] at h
          split at h
          next => cases h
          next row hfind =>
            obtain ⟨hmem, hvalid⟩ := Table.find?_eq_some hfind
            simp only [Bool.and_eq_true, QrSession.consumable, decide_eq_true_eq] at hvalid
            refine .inr (.inr (.inr ⟨id, rfl, row, hmem, ?_, ?_⟩))
            · simp [hvalid.2.1]
            · simpa using h
      | _ => cases h
  | passkeys q =>
      cases q with
      | insert id u name credentialId credentialJson =>
          simp only [run, PasskeySql.run] at h
          split at h
          · cases h
          split at h
          next hnone => exact .inl ⟨.passkey id, rfl, taken hnone⟩
          next => cases h
      | _ => cases h
  | recoveryCodes q => cases q <;> cases h
  | apiKeys q => cases q <;> cases h
  | oauthIdentities q =>
      cases q <;> simp only [run, OAuthIdentitySql.run] at h
      all_goals
        repeat' split at h
        all_goals cases h
  | recordAudit => cases h

end Statements

/-! ## Passkeys are made from fresh draws -/

section Passkeys

variable {cx : Context}

/-- The discipline of `MintsFresh` for the ids of passkeys. -/
abbrev freshPasskeys (cx : Context) : AppDiscipline :=
  .along (MintsFresh (drawing cx) Statement.AddsPasskey fun n id ↦ cx.randomUuid n = id)

theorem not_addsPasskey_of_effect {q : Statement} (hq : q.effect ≠ .insertPasskey) (id : Uuid) :
    ¬q.AddsPasskey id := by
  unfold Statement.AddsPasskey
  split
  next => exact absurd rfl hq
  next => exact not_false

theorem maintains_passkeys {α ε : Type} {p : Prog Statement.Res ε α} {i : ℕ} {k : Request}
    (hp : p.Only fun q ↦ q.effect ≠ .insertPasskey) :
    Maintains (machine cx) (freshPasskeys cx) i k p :=
  .of_only hp fun _ hq _ hW ↦
    keeps_mintsFresh.mpr ⟨fun id hid ↦ absurd hid (not_addsPasskey_of_effect hq id), hW⟩

theorem maintains_finishRegistration {i : ℕ} {k : Request} {actor : AuthUser}
    {challengeId credential : String} {name : Option String} :
    Maintains (machine cx) (freshPasskeys cx) i k
      (PasskeysService.finishRegistration cx actor challengeId credential name) := by
  apply Maintains.bind (maintains_passkeys (only_claimChallenge fun q hq ↦ by simp [hq]))
  intro state
  apply Maintains.bind (maintains_passkeys (by simp))
  intro passkey W hW
  refine wp_bind.mpr ((wp_ask _).mpr fun W₁ hW₁ ↦ ?_)
  have hdrawn : (freshPasskeys cx).Keeps W₁ (W₁.ran (machine cx) i k .draw) :=
    keeps_mintsFresh.mpr ⟨fun id hid ↦ hid.elim, hW₁.inv⟩
  have hunspent : Unspent (drawing cx) Statement.AddsPasskey i W₁.store.draws
      (W₁.ran (machine cx) i k .draw).history := Unspent.drawn
  refine ⟨⟨hdrawn, ?_⟩, by rintro _ ⟨⟩⟩
  refine wp_bind.mpr (wp_sql (fun _ _ h ↦ h) (fun W₂ hW₂ ↦ ?_) fun W₂ stored _ _ hInv ↦ ?_)
  · exact keeps_mintsFresh.mpr ⟨fun id hid ↦ ⟨_, hid, hunspent.evolve hW₂⟩, hW₂.inv⟩
  · exact maintains_passkeys (by simp) _ hInv

theorem handles_freshPasskeys (cx : Context) (k : Request) :
    Handles (machine cx) (freshPasskeys cx) k (handle cx) := by
  refine .of_maintains (fun i ↦ ?_) fun a i W hW ↦
    Discipline.keeps_along_answered.mpr ⟨trivial, hW⟩
  by_cases hk : Effect.insertPasskey ∈ k.effects
  · cases k with
    | passkeyRegisterFinish caller challengeId credential name =>
        apply Maintains.bind
        · exact maintains_passkeys (only_sessionUser (fun q hq ↦ by simp [hq]) _ _)
        · exact fun actor ↦ .bind maintains_finishRegistration fun _ ↦ .ret _
    | _ => simp at hk
  · apply maintains_passkeys
    apply handle_only
    rintro q hq heq
    rcases List.mem_cons.mp hq with hnone | hmem
    · rw [hnone] at heq
      cases heq
    · exact hk (heq ▸ hmem)

end Passkeys

/-! ## All runs -/

section Runs

variable {cx : Context} {s : Server} {c : AppConfig} {key : Key}

/-- Each key is inserted at most once. -/
theorem Reached.inserted_once (hc : Reached cx s c) (hfresh : cx.FreshKeys s c.world.store.draws) :
    Once (fun e ↦ e.Ran fun q _ ↦ q.Inserts key) c.world.history := by
  cases key with
  | secret v => exact hc.minted_once (hfresh.distinct (.secret v))
  | passkey id =>
      exact Reachable.minted_once hc (hc.along fun k _ ↦ handles_freshPasskeys cx k)
        (hfresh.distinct (.passkey id))

theorem Reached.source_of_inserts (hc : Reached cx s c) {e : AppEvent}
    (he : e ∈ c.world.history) (hinserts : e.Ran fun q _ ↦ q.Inserts key) :
    ∃ n < c.world.store.draws, cx.KeySource n key := by
  cases key with
  | secret v => exact hc.source_of_mints he hinserts
  | passkey id =>
      exact Reachable.source_of_mints hc (hc.along fun k _ ↦ handles_freshPasskeys cx k) he hinserts

/-- What is in use was so at the start, or was inserted since. -/
theorem Reached.inserted_of_inUse (hc : Reached cx s c) (huse : key.InUse c.world.store.db) :
    key.InUse s.db ∨ ∃ e ∈ c.world.history, e.Ran fun q _ ↦ q.Inserts key := by
  by_contra hnot
  rw [not_or, not_exists] at hnot
  obtain ⟨hstart, hnone⟩ := hnot
  refine absurd huse (hc.live_of_start (fun t ↦ ¬key.InUse t.db) (fun _ _ ↦ Iff.rfl) hstart
    fun e he hfree hend ↦ hnone e ⟨he, ?_⟩)
  cases e with
  | answered => exact hend.elim
  | ran i k q b => exact Key.inUse_exec hfree (not_not.mp hend)

/-- An insertion finds its key free. -/
theorem Reached.key_free (hc : Reached cx s c) (hfresh : cx.FreshKeys s c.world.store.draws)
    {later earlier : List AppEvent} {i : ℕ} {k : Request} {q : Statement} {b : Server}
    (hhist : c.world.history = later ++ .ran i k q b :: earlier) (hq : q.Inserts key) :
    ¬key.InUse b.db := by
  intro huse
  obtain ⟨d, hd, hworld⟩ := hc.past hhist
  have hthis : (.ran i k q b : AppEvent) ∈ c.world.history := by simp [hhist]
  obtain ⟨n, hn, hsource⟩ := hc.source_of_inserts hthis hq
  have hstore : d.world.store = b := by rw [hworld, Event.store_ran]
  rw [← hstore] at huse
  rcases Reached.inserted_of_inUse hd huse with hstart | ⟨e, he, hinserts⟩
  · exact hfresh.notDrawn key hstart n hn hsource
  · have hearlier : e ∈ earlier := by rwa [hworld] at he
    have honce : Once (fun e ↦ e.Ran fun q _ ↦ q.Inserts key)
        (later ++ .ran i k q b :: earlier) := hhist ▸ hc.inserted_once hfresh
    have hpair := (List.pairwise_cons.mp (List.pairwise_append.mp honce).2.1).1 e hearlier
    exact hpair ⟨hinserts, hq⟩

end Runs

end ApiStarter
