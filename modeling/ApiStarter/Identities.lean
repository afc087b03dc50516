import ApiStarter.HalfFinished

/-!
# Provider accounts

Who holds a provider's account.  It is attached only with the consent of the
account that gets it: a link flow of one of its sessions, an address both sides
have verified, or its own creation.
-/

namespace ApiStarter

open Interleave Interleave.Prog Relational

/-- Account `a` holds the account `x` at the provider. -/
def holds (provider : Provider) (x : String) (a : Uuid) (s : Server) : Prop :=
  ∃ row, s.db.oauthIdentities.get? (provider, x) = some row ∧ row.userId = a

/-- The event leaves account `a` with the account `x` at the provider. -/
def LeavesHeld (cx : Context) (provider : Provider) (x : String) (a : Uuid) (e : AppEvent) : Prop :=
  e.Ran fun q s ↦ holds provider x a ((machine cx).exec q s).2

def StoresGrant (a : Uuid) (codeHash : String) (e : AppEvent) : Prop :=
  e.Ran fun q s ↦ ∃ expiresAt createdAt,
    q = .sql (.loginGrants (.insert ⟨codeHash, a, expiresAt, none, createdAt⟩)) ∧
      s.db.loginGrants.get? codeHash = none

/-- The account is found by an address it has verified. -/
def FindsVerified (a : Uuid) (email : String) (e : AppEvent) : Prop :=
  e.Ran fun q s ↦ q = .sql (.users (.findByEmail email)) ∧
    userIs a (fun row ↦ row.isLive = true ∧ row.email = email ∧ row.isEmailVerified = true) s

def Creates (cx : Context) (a : Uuid) (email : String) (e : AppEvent) : Prop :=
  e.Ran fun q s ↦ (∃ new, q = .sql (.users (.create a new))) ∧ s.db.users.get? a = none ∧
    userIs a (fun row ↦ row.email = email) ((machine cx).exec q s).2

/-- The state a callback claims. -/
def claimedState : AppEvent → Option OAuthState
  | .ran _ _ (.sql (.oauthStates (.claim hash))) before =>
      (before.db.oauthStates.get? hash).filter fun st ↦ decide (before.now < st.expiresAt)
  | _ => none

/-- The provider vouches for this address. -/
def ProviderProfile.VouchesFor (cx : Context) (profile : ProviderProfile) (email : String) : Prop :=
  profile.emailVerified = true ∧ ∃ raw, profile.email = some raw ∧ email = cx.normalizeEmail raw

/-- The thread has presented a session that is accepted. -/
def SignedIn (cx : Context) (claims : Claims) (own : List AppEvent) : Prop :=
  (∃ e ∈ own, e.store.now.timestamp - jwtLeewaySecs ≤ claims.exp) ∧
    ∃ e ∈ own, accepts cx claims e.store = true

/-- A session of `a` has started a link flow with this state. -/
inductive LinkStarted (cx : Context) (a : Uuid) (st : OAuthState) : List AppEvent → Prop
  | intro (newer : List AppEvent) (j : ℕ) (claims : Claims) (b : Server) (older : List AppEvent)
      (hsub : claims.sub = a) (hsession : SignedIn cx claims (ownEvents j older)) :
      LinkStarted cx a st (newer ++
        .ran j (.oauthLink (.bearer claims) st.provider)
          (.sql (.oauthStates (.insert st))) b :: older)

/-- What entitles a callback to attach the provider's account to `a`. -/
inductive Entitled (cx : Context) (provider : Provider) (profile : ProviderProfile) (a : Uuid)
    (i : ℕ) (earlier : List AppEvent) : Prop
  | linking (newer : List AppEvent) (e : AppEvent) (older : List AppEvent) (st : OAuthState)
      (hhist : earlier = newer ++ e :: older) (htid : e.tid = i) (hclaim : claimedState e = some st)
      (hprovider : st.provider = provider) (huser : st.userId = some a)
      (hstarted : LinkStarted cx a st older)
  | verified (email : String) (hvouches : profile.VouchesFor cx email) (e : AppEvent)
      (he : e ∈ ownEvents i earlier) (hfinds : FindsVerified a email e)
  | created (email : String) (hvouches : profile.VouchesFor cx email) (e : AppEvent)
      (he : e ∈ ownEvents i earlier) (hcreates : Creates cx a email e)

/-- `a` has the provider removed from its account. -/
def Unlinks (provider : Provider) (a : Uuid) (e : AppEvent) : Prop :=
  (∃ claims : Claims, claims.sub = a ∧ e.request = .oauthUnlink (.bearer claims) provider) ∧
    e.Ran fun q _ ↦ q = .sql (.oauthIdentities (.delete a provider))

structure IdentitiesGuarded (cx : Context) (W : AppWorld) : Prop where
  one_holder : ∀ r₁ ∈ W.store.db.oauthIdentities, ∀ r₂ ∈ W.store.db.oauthIdentities,
    r₁.provider = r₂.provider → r₁.providerUserId = r₂.providerUserId → r₁.userId = r₂.userId
  moved : ∀ later e₂ mid e₁ earlier provider x a b, W.history = later ++ e₂ ::
    (mid ++ e₁ :: earlier) →
    holds provider x a e₁.store → holds provider x b e₂.store → a ≠ b →
      ∃ e ∈ mid ++ [e₁], Unlinks provider a e
  attached : ∀ later e earlier provider x a, W.history = later ++ e :: earlier →
    e.Ran (Rises (machine cx) (holds provider x a)) → ∃ query profile,
      e.request = .oauthCallback provider query (some profile) ∧ profile.providerUserId = x ∧
        Entitled cx provider profile a e.tid earlier
  loggedIn : ∀ later i k code redirect b earlier,
    W.history = later ++ .answered i k (.ok (.callback (.loggedIn code redirect))) b :: earlier →
      ∃ provider query profile a, k = .oauthCallback provider query (some profile) ∧
        (∃ e ∈ ownEvents i earlier, LeavesHeld cx provider profile.providerUserId a e) ∧
          ∃ e ∈ ownEvents i earlier, StoresGrant a (cx.sha256 code) e

/-! ## One statement -/

section Statements

variable {cx : Context} {provider : Provider} {x : String} {a : Uuid} {s : Server} {q : Statement}

/-- How a provider's account gets a holder. -/
theorem insert_of_holds_rises (h : Rises (machine cx) (holds provider x a) q s) :
    ∃ email, q = .sql (.oauthIdentities (.insert a provider x email)) := by
  obtain ⟨hbefore, row, hrow, huser⟩ := h
  have unchanged : ¬s.db.oauthIdentities.get? (provider, x) = some row := fun hold ↦
    hbefore ⟨row, hold, huser⟩
  cases q with
  | sql q =>
      cases q with
      | oauthIdentities q =>
          simp only [exec_sql, Sql.run] at hrow
          cases q with
          | insert a' provider' x' email =>
              simp only [OAuthIdentitySql.run] at hrow
              split at hrow
              · exact absurd hrow unchanged
              next hinsert =>
                obtain ⟨-, hget⟩ := Table.insert?_eq_some hinsert
                dsimp only at hrow
                rw [hget] at hrow
                split at hrow
                next hkey =>
                  obtain ⟨rfl, rfl⟩ := Prod.mk.inj hkey
                  obtain rfl : row = _ := (Option.some.inj hrow).symm
                  obtain rfl : a' = a := huser
                  exact ⟨email, rfl⟩
                next => exact absurd hrow unchanged
          | delete => exact absurd (Table.get?_of_get?_deleteWhere hrow) unchanged
          | _ => exact absurd hrow unchanged
      | _ => exact absurd hrow unchanged
  | _ => exact absurd hrow unchanged

/-- How a provider's account loses its holder. -/
theorem delete_of_holds_ends (hlive : holds provider x a s)
    (h : Ends (machine cx) (holds provider x a) q s) :
    q = .sql (.oauthIdentities (.delete a provider)) := by
  obtain ⟨row, hrow, rfl⟩ := hlive
  have kept : ¬((machine cx).exec q s).2.db.oauthIdentities.get? (provider, x) = some row :=
    fun hget ↦ h ⟨row, hget, rfl⟩
  cases q with
  | sql q =>
      cases q with
      | oauthIdentities q =>
          cases q with
          | insert a' provider' x' email =>
              refine absurd ?_ kept
              simp only [exec_sql, Sql.run, OAuthIdentitySql.run]
              split
              · exact hrow
              next hinsert =>
                obtain ⟨hnone, hget⟩ := Table.insert?_eq_some hinsert
                apply (hget _).trans
                rw [if_neg, hrow]
                intro hkey
                rw [hkey, hrow] at hnone
                cases hnone
          | delete a' provider' =>
              simp only [exec_sql, Sql.run, OAuthIdentitySql.run,
                Table.get?_deleteWhere, hrow] at kept
              have hkey : row.provider = provider :=
                congrArg Prod.fst (Table.key_of_get? hrow)
              have hlink : row.isLink a' provider' = true := by
                by_contra hnot
                simp [Option.filter, hnot] at kept
              simp only [OAuthIdentity.isLink, Bool.and_eq_true, decide_eq_true_eq] at hlink
              rw [hlink.1, ← hkey, hlink.2]
          | _ => exact absurd hrow kept
      | _ => exact absurd hrow kept
  | _ => exact absurd hrow kept

end Statements

/-! ## One request -/

/-- The callback has claimed a state with which `a` started a link flow. -/
def ClaimedFor (provider : Provider) (a : Uuid) (e : AppEvent) : Prop :=
  ∃ st, claimedState e = some st ∧ st.provider = provider ∧ st.userId = some a

/-- What a callback has seen when it attaches the provider's account to `a`. -/
def Vouched (cx : Context) (provider : Provider) (profile : ProviderProfile) (a : Uuid)
    (own : List AppEvent) : Prop :=
  (∃ e ∈ own, ClaimedFor provider a e) ∨
    ∃ email, profile.VouchesFor cx email ∧ ∃ e ∈ own, FindsVerified a email e ∨ Creates cx a email e

def IdentitySteps (cx : Context) : AppEvent → List AppEvent → Prop
  | .ran _ k (.sql (.oauthIdentities (.insert a provider x _))) _, own => ∃ query profile,
      k = .oauthCallback provider query (some profile) ∧ profile.providerUserId = x ∧
        Vouched cx provider profile a own
  | .ran _ k (.sql (.oauthIdentities (.delete a provider))) _, _ => ∃ claims : Claims,
      claims.sub = a ∧ k = .oauthUnlink (.bearer claims) provider
  | .ran _ k (.sql (.oauthStates (.insert st))) _, own => ∀ a, st.userId = some a →
      ∃ claims : Claims, claims.sub = a ∧ k = .oauthLink (.bearer claims) st.provider ∧
        SignedIn cx claims own
  | .answered _ k (.ok (.callback (.loggedIn code _))) _, own => ∃ provider query profile a,
      k = .oauthCallback provider query (some profile) ∧
        (∃ e ∈ own, LeavesHeld cx provider profile.providerUserId a e) ∧
          ∃ e ∈ own, StoresGrant a (cx.sha256 code) e
  | _, _ => True

section Handlers

variable {cx : Context} {i : ℕ} {k : Request} {own : List AppEvent}

@[reducible] def Effect.concernsIdentity : Effect → Bool
  | .insertIdentity | .deleteIdentity | .insertState => true
  | _ => false

theorem identitySteps_of_effect {q : Statement}
    (hq : q.effect.concernsIdentity = false) (s : Server)
    (own : List AppEvent) : IdentitySteps cx (.ran i k q s) own := by
  unfold IdentitySteps
  split
  next heq =>
    cases heq
    cases hq
  next heq =>
    cases heq
    cases hq
  next heq =>
    cases heq
    cases hq
  next heq => cases heq
  next => trivial

/-- A part of a handler that does nothing to identities. -/
theorem traced_bystander {α ε : Type} {p : Prog Statement.Res ε α} {Q : α → List AppEvent → Prop}
    {E : ε → List AppEvent → Prop} (hp : p.Only fun q ↦ q.effect.concernsIdentity = false)
    (hQ : ∀ a own', own ⊆ own' → Q a own') (hE : ∀ e own', E e own') :
    Traced (machine cx) (IdentitySteps cx) i k p Q E own :=
  traced_of_quiet hp (returns_true _) (fun _ hq s own ↦ identitySteps_of_effect hq s own)
    (fun a own' _ h ↦ hQ a own' h) fun e own' _ ↦ hE e own'

theorem traced_sessionUser {P : AppEvent → List AppEvent → Prop}
    {caller : Presented} {isSafe : Bool}
    {Q : AuthUser → List AppEvent → Prop} {E : AppError → List AppEvent → Prop}
    (hP : ∀ q : Statement, q.effect = .none → ∀ s own, P (.ran i k q s) own)
    (hQ : ∀ (claims : Claims) role own', caller = .bearer claims → SignedIn cx claims own' →
      Q ⟨claims.sub, role, .session⟩ own') (hE : ∀ e own', E e own') :
    Traced (machine cx) P i k (sessionUser cx caller isSafe) Q E own := by
  cases caller with
  | bearer claims =>
      refine traced_bind.mpr (traced_bind.mpr (traced_clock fun s₁ ↦ ⟨hP _ rfl s₁ _, ?_⟩))
      refine traced_bind.mpr ((traced_ensure ..).mpr ⟨fun hexp ↦ ?_, fun _ ↦ hE _ _⟩)
      refine traced_bind.mpr (traced_sql (fun s₂ ↦ hP _ rfl s₂ _) (fun s₂ found hfound ↦ ?_)
        (fun _ _ ↦ hE _ _) (hE _ _))
      refine traced_bind.mpr ((traced_okOr ..).mpr ⟨fun user huser ↦ ?_, fun _ ↦ hE _ _⟩)
      obtain ⟨hsome, hactive⟩ := Option.filter_eq_some_iff.mp huser
      obtain ⟨hget, hid, hlive⟩ := find?_liveId_eq_some ((Option.some.inj hfound).trans hsome)
      refine traced_bind.mpr ((traced_ensure ..).mpr ⟨fun htv ↦ ?_, fun _ ↦ hE _ _⟩)
      refine traced_bind.mpr ((traced_ensure ..).mpr ⟨fun _ ↦ ?_, fun _ ↦ hE _ _⟩)
      rw [hid]
      refine hQ claims user.role _ rfl ⟨⟨_, List.mem_cons_of_mem _ List.mem_cons_self, hexp⟩, ?_⟩
      refine ⟨_, List.mem_cons_self, accepts_iff.mpr ⟨user, hget, hlive, hactive, htv⟩⟩
  | apiKey raw =>
      exact traced_of_quiet (only_sessionUser (fun _ hq ↦ hq) _ _)
        (sessionUser_apiKey_returns raw isSafe) hP (fun _ _ hfalse ↦ hfalse.elim)
          fun e own' _ ↦ hE e own'

/-! ### The callback -/

section Callback

variable {provider : Provider} {query : CallbackQuery} {profile : ProviderProfile} {a : Uuid}
  {redirect : String} {Q : CallbackOutcome → List AppEvent → Prop}
  {E : String → List AppEvent → Prop}
  (hE : ∀ reason own', E reason own')
  (hLoggedIn : ∀ code redirect own', (∃ a, (∃ e ∈ own',
    LeavesHeld cx provider profile.providerUserId a e) ∧ ∃ e ∈ own',
      StoresGrant a (cx.sha256 code) e) →
      Q (.loggedIn code redirect) own')
include hE hLoggedIn

theorem traced_grantFor {k : Request}
    (hheld : ∃ e ∈ own, LeavesHeld cx provider profile.providerUserId a e) :
    Traced (machine cx) (IdentitySteps cx) i k (OAuthService.grantFor cx a redirect) Q E own := by
  refine traced_bind.mpr (traced_mapErr.mpr (traced_bystander (by simp) (fun _ own₁ h₁ ↦ ?_)
    fun _ ↦ hE _))
  refine traced_bind.mpr (traced_bystander (by simp) (fun _ own₂ h₂ ↦ ?_) hE)
  refine traced_bind.mpr (traced_bystander (by simp) (fun _ own₃ h₃ ↦ ?_) hE)
  refine traced_bind.mpr (traced_bystander (by simp) (fun _ own₄ h₄ ↦ ?_) hE)
  refine traced_bind.mpr (traced_bind.mpr ((traced_ask _).mpr
    ⟨fun s₅ ↦ ⟨identitySteps_of_effect rfl s₅ _, ?_⟩, by rintro _ ⟨⟩⟩))
  refine traced_bind.mpr (traced_clock fun s₆ ↦ ⟨identitySteps_of_effect rfl s₆ _, ?_⟩)
  refine traced_bind.mpr (traced_mapErr.mpr (traced_bind.mpr (traced_clock fun s₇ ↦
    ⟨identitySteps_of_effect rfl s₇ _, ?_⟩)))
  refine traced_bind.mpr (traced_sql (fun s₈ ↦ identitySteps_of_effect rfl s₈ _) (fun s₈ _ _ ↦ ?_)
    (fun _ _ ↦ hE _ _) (hE _ _))
  refine traced_sql (fun s₉ ↦ identitySteps_of_effect rfl s₉ _) (fun s₉ _ hstored ↦ ?_)
    (fun _ _ ↦ hE _ _) (hE _ _)
  obtain ⟨e, he, hleaves⟩ := hheld
  refine hLoggedIn _ _ _ ⟨a, ⟨e, ?_, hleaves⟩, _, List.mem_cons_self, _, _, rfl, ?_⟩
  · have hlast := h₄ (h₃ (h₂ (h₁ he)))
    simp [hlast]
  · simp only [Sql.run, LoginGrantSql.run] at hstored
    cases hinsert : s₉.db.loginGrants.insert? _ with
    | none =>
        rw [hinsert] at hstored
        cases hstored
    | some grants => exact (Table.insert?_eq_some hinsert).1

omit hLoggedIn in
theorem traced_link {Q : Unit → List AppEvent → Prop} (hvouched : Vouched cx provider profile a own)
    (hQ : ∀ own', (∃ e ∈ own', LeavesHeld cx provider profile.providerUserId a e) → Q () own') :
    Traced (machine cx) (IdentitySteps cx) i (.oauthCallback provider query (some profile))
      (OAuthService.link a provider profile) Q E own := by
  refine traced_bind.mpr
    (traced_mapErr.mpr (traced_sql (fun s ↦ ⟨query, profile, rfl, rfl, hvouched⟩)
    (fun s linked hlinked ↦ ?_) (fun _ _ ↦ hE _ _) (hE _ _)))
  refine (traced_ensure ..).mpr ⟨fun htrue ↦ hQ _ ⟨_, List.mem_cons_self, ?_⟩, fun _ ↦ hE _ _⟩
  obtain ⟨hanswer, hget⟩ := OAuthIdentitySql.run_insert s.now s.db.oauthIdentities a provider
    profile.providerUserId profile.email
  have hfree : s.db.oauthIdentities.get? (provider, profile.providerUserId) = none := by
    simpa [htrue] using hanswer.symm.trans hlinked
  rw [hfree, Option.getD_none] at hget
  exact ⟨_, hget, rfl⟩

omit hLoggedIn in
theorem traced_accountFor {email : String} {Q : User → List AppEvent → Prop}
    (hvouches : profile.VouchesFor cx (cx.normalizeEmail email))
    (hQ : ∀ user own', Vouched cx provider profile user.id own' → Q user own') :
    Traced (machine cx) (IdentitySteps cx) i k
      (OAuthService.accountFor cx email profile) Q E own := by
  refine traced_bind.mpr (traced_mapErr.mpr (traced_sql (fun s ↦ identitySteps_of_effect rfl s _)
    (fun s found hfound ↦ ?_) (fun _ _ ↦ hE _ _) (hE _ _)))
  cases found with
  | some existing =>
      refine traced_bind.mpr ((traced_ensure ..).mpr ⟨fun _ ↦ ?_, fun _ ↦ hE _ _⟩)
      refine traced_bind.mpr ((traced_ensure ..).mpr ⟨fun hverified ↦ ?_, fun _ ↦ hE _ _⟩)
      obtain ⟨hmem, hmatches⟩ := Table.find?_eq_some (Option.some.inj hfound)
      simp only [Bool.and_eq_true, decide_eq_true_eq] at hmatches
      refine hQ existing _ (.inr ⟨_, hvouches, _, List.mem_cons_self, .inl ⟨rfl, existing, ?_⟩⟩)
      exact ⟨Table.get?_of_mem hmem, hmatches.2, hmatches.1, hverified⟩
  | none =>
      refine traced_mapErr.mpr (traced_bind.mpr ((traced_ask _).mpr
        ⟨fun s₁ ↦ ⟨identitySteps_of_effect rfl s₁ _, ?_⟩, by rintro _ ⟨⟩⟩))
      refine traced_bind.mpr (traced_sql (fun s₂ ↦ identitySteps_of_effect rfl s₂ _)
        (fun s₂ created hcreated ↦ ?_) (fun _ _ ↦ hE _ _) (hE _ _))
      cases created with
      | error e => exact hE _ _
      | ok user =>
          obtain ⟨rfl, hnone, hget⟩ := UsersSql.create_eq_ok hcreated
          refine hQ _ _ (.inr ⟨_, hvouches, _, List.mem_cons_self, .inr ⟨⟨_, rfl⟩, hnone, ?_⟩⟩)
          exact ⟨_, hget, rfl⟩

theorem traced_resolve {linkingUser : Option Uuid}
    (hclaimed : ∀ a, linkingUser = some a → ∃ e ∈ own, ClaimedFor provider a e)
    (hLinked : ∀ redirect own', Q (.linked provider redirect) own') :
    Traced (machine cx) (IdentitySteps cx) i (.oauthCallback provider query (some profile))
      (OAuthService.resolve cx provider profile linkingUser redirect) Q E own := by
  refine traced_bind.mpr (traced_mapErr.mpr (traced_sql (fun s ↦ identitySteps_of_effect rfl s _)
    (fun s found hfound ↦ ?_) (fun _ _ ↦ hE _ _) (hE _ _)))
  cases found with
  | some identity =>
      cases linkingUser with
      | some userId =>
          by_cases hsame : userId = identity.userId
          · simp only [if_pos hsame]
            exact hLinked _ _
          · simp only [if_neg hsame]
            exact hE _ _
      | none =>
          refine traced_grantFor hE hLoggedIn ⟨_, List.mem_cons_self, identity, ?_, rfl⟩
          exact Option.some.inj hfound
  | none =>
      cases linkingUser with
      | some userId =>
          obtain ⟨e, he, hclaim⟩ := hclaimed userId rfl
          refine traced_bind.mpr (traced_mapErr.mpr (traced_bystander (by simp) (fun _ own₁ h₁ ↦ ?_)
            fun _ ↦ hE _))
          refine traced_bind.mpr (traced_bystander (by simp) (fun _ own₂ h₂ ↦ ?_) hE)
          refine traced_bind.mpr (traced_link hE (.inl ⟨e, ?_, hclaim⟩) fun _ _ ↦ hLinked _ _)
          exact h₂ (h₁ (List.mem_cons_of_mem _ he))
      | none =>
          refine traced_bind.mpr ((traced_okOr ..).mpr ⟨fun email hemail ↦ ?_, fun _ ↦ hE _ _⟩)
          obtain ⟨hraw, hverified⟩ := Option.filter_eq_some_iff.mp hemail
          refine traced_bind.mpr (traced_accountFor hE ⟨hverified, email, hraw, rfl⟩
            fun user own₁ (hvouched : Vouched cx provider profile user.id own₁) ↦ ?_)
          exact traced_bind.mpr (traced_link hE hvouched fun own₂ hheld ↦
            traced_grantFor hE hLoggedIn hheld)

end Callback

theorem traces_oauthCallback_identities (provider : Provider) (query : CallbackQuery)
    (answer : Option ProviderProfile) :
    Traces (machine cx) (IdentitySteps cx) (.oauthCallback provider query answer) (handle cx) := by
  intro i
  refine traced_bind.mpr (traced_bind.mpr (traced_bindBoth.mpr ?_))
  have hE : ∀ (reason : String) (own : List AppEvent), Delivers (IdentitySteps cx) i
      (.oauthCallback provider query answer) (.ok (.callback (.failed reason))) own :=
    fun _ _ _ ↦ trivial
  refine traced_bind.mpr ((traced_okOr ..).mpr ⟨fun stateRaw _ ↦ ?_, fun _ ↦ hE _ _⟩)
  refine traced_bind.mpr (traced_mapErr.mpr (traced_sql (fun s ↦ identitySteps_of_effect rfl s _)
    (fun s claimed hclaimed ↦ ?_) (fun _ _ ↦ hE _ _) (hE _ _)))
  refine traced_bind.mpr ((traced_okOr ..).mpr ⟨fun state hstate ↦ ?_, fun _ ↦ hE _ _⟩)
  subst hstate
  obtain ⟨hget, hlive, -⟩ := OAuthStateSql.claim_eq_some hclaimed
  refine traced_bind.mpr ((traced_ensure ..).mpr ⟨fun hprovider ↦ ?_, fun _ ↦ hE _ _⟩)
  refine traced_bind.mpr ((traced_ensure ..).mpr ⟨fun _ ↦ ?_, fun _ ↦ hE _ _⟩)
  refine traced_bind.mpr ((traced_okOr ..).mpr ⟨fun _ _ ↦ ?_, fun _ ↦ hE _ _⟩)
  refine traced_bind.mpr ((traced_okOr ..).mpr ⟨fun _ _ ↦ ?_, fun _ ↦ hE _ _⟩)
  refine traced_bind.mpr ((traced_okOr ..).mpr ⟨fun profile hprofile ↦ ?_, fun _ ↦ hE _ _⟩)
  subst hprofile
  refine traced_resolve hE (fun code redirect own' hgrant s ↦ ?_) (fun a ha ↦ ?_)
    fun redirect own' s ↦ trivial
  · obtain ⟨a, hheld, hstored⟩ := hgrant
    exact ⟨provider, query, profile, a, rfl, hheld, hstored⟩
  · refine ⟨_, List.mem_cons_self, state, ?_, hprovider, ha⟩
    exact Option.filter_eq_some_iff.mpr ⟨hget, decide_eq_true hlive⟩

theorem SignedIn.mono {claims : Claims} {own' : List AppEvent} (h : SignedIn cx claims own)
    (hown : own ⊆ own') : SignedIn cx claims own' := by
  obtain ⟨⟨e₁, he₁, hexp⟩, e₂, he₂, haccepts⟩ := h
  exact ⟨⟨e₁, hown he₁, hexp⟩, e₂, hown he₂, haccepts⟩

theorem identitySteps_quiet (q : Statement) (hq : q.effect = .none) (s : Server)
    (own : List AppEvent) : IdentitySteps cx (.ran i k q s) own :=
  identitySteps_of_effect (by simp [hq]) s own

/-- A flow is started on behalf of the signed-in account, or of nobody. -/
theorem traced_start {provider : Provider} {userId : Option Uuid} {path : String}
    {Q : String → List AppEvent → Prop} {E : AppError → List AppEvent → Prop}
    (hsession : ∀ a, userId = some a → ∃ claims : Claims, claims.sub = a ∧
      k = .oauthLink (.bearer claims) provider ∧ SignedIn cx claims own)
    (hQ : ∀ url own', Q url own') (hE : ∀ e own', E e own') :
      Traced (machine cx) (IdentitySteps cx) i k
      (OAuthService.start cx provider userId path) Q E own := by
  refine traced_bind.mpr ((traced_ensure ..).mpr ⟨fun _ ↦ ?_, fun _ ↦ hE _ _⟩)
  refine traced_bind.mpr (traced_bystander (by simp [generateToken]) (fun state own₁ h₁ ↦ ?_) hE)
  refine traced_bind.mpr (traced_bystander (by simp [generateToken]) (fun verifier own₂ h₂ ↦ ?_) hE)
  refine traced_bind.mpr (traced_bystander (by simp [clock]) (fun now own₃ h₃ ↦ ?_) hE)
  refine traced_bind.mpr
    (traced_bind.mpr (traced_bystander (by simp [clock]) (fun now' own₄ h₄ ↦ ?_)
    hE))
  refine traced_bind.mpr (traced_bystander (by simp) (fun _ own₅ h₅ ↦ ?_) hE)
  refine traced_sql (fun s a ha ↦ ?_) (fun _ _ _ ↦ ?_) (fun _ _ ↦ hE _ _) (hE _ _)
  · obtain ⟨claims, hsub, hk, hsigned⟩ := hsession a ha
    exact ⟨claims, hsub, hk, hsigned.mono fun e he ↦ h₅ (h₄ (h₃ (h₂ (h₁ he))))⟩
  · exact (traced_okOr ..).mpr ⟨fun _ _ ↦ hQ _ _, fun _ ↦ hE _ _⟩

theorem traces_oauthLogin (provider : Provider) (redirect : Option String) :
    Traces (machine cx) (IdentitySteps cx) (.oauthLogin provider redirect) (handle cx) := by
  intro i
  exact traced_bind.mpr (traced_start (by simp) (fun _ _ _ ↦ trivial) fun _ _ _ ↦ trivial)

theorem traces_oauthLink (caller : Presented) (provider : Provider) :
    Traces (machine cx) (IdentitySteps cx) (.oauthLink caller provider) (handle cx) := by
  intro i
  refine traced_bind.mpr
    (traced_sessionUser identitySteps_quiet (fun claims role own₁ hcaller hsession ↦ ?_)
    fun _ _ _ ↦ trivial)
  subst hcaller
  refine traced_bind.mpr (traced_start (fun a ha ↦ ?_) (fun _ _ _ ↦ trivial) fun _ _ _ ↦ trivial)
  exact ⟨claims, Option.some.inj ha, rfl, hsession⟩

theorem traces_oauthUnlink (caller : Presented) (provider : Provider) :
    Traces (machine cx) (IdentitySteps cx) (.oauthUnlink caller provider) (handle cx) := by
  intro i
  have hE : ∀ (e : AppError) (own : List AppEvent),
      Delivers (IdentitySteps cx) i (.oauthUnlink caller provider) (.error e) own := fun _ _ _ ↦
        trivial
  refine traced_bind.mpr
    (traced_sessionUser identitySteps_quiet (fun claims role own₁ hcaller _ ↦ ?_) hE)
  refine traced_bind.mpr (traced_bind.mpr (traced_bystander (by simp) (fun _ own₂ _ ↦ ?_) hE))
  refine traced_bind.mpr (traced_bystander (by simp) (fun _ own₃ _ ↦ ?_) hE)
  refine traced_bind.mpr (traced_bystander (by simp) (fun _ own₄ _ ↦ ?_) hE)
  refine traced_bind.mpr (traced_bystander (by simp) (fun _ own₅ _ ↦ ?_) hE)
  refine traced_bind.mpr (traced_sql (fun s ↦ ⟨claims, rfl, hcaller ▸ rfl⟩) (fun _ _ _ _ ↦ trivial)
    (fun _ _ ↦ hE _ _) (hE _ _))

theorem traces_identitySteps (k : Request) :
    Traces (machine cx) (IdentitySteps cx) k (handle cx) := by
  have aside {k : Request} (hk : ∀ e ∈ .none :: k.effects, e.concernsIdentity = false)
      (hanswer : (handle cx k).Returns fun a ↦ ∀ i s own,
        IdentitySteps cx (.answered i k (.ok a) s) own) :
      Traces (machine cx) (IdentitySteps cx) k (handle cx) := fun i ↦
    traced_of_quiet (handle_only k fun q hq ↦ hq) hanswer
      (fun q hq s own ↦ identitySteps_of_effect (hk _ hq) s own) (fun a own' h _ s ↦ h i s own')
        fun e own' _ s ↦ trivial
  cases k with
  | oauthLogin provider redirect => exact traces_oauthLogin provider redirect
  | oauthLink caller provider => exact traces_oauthLink caller provider
  | oauthCallback provider query answer =>
      exact traces_oauthCallback_identities provider query answer
  | oauthUnlink caller provider => exact traces_oauthUnlink caller provider
  | _ =>
      apply aside (by simp)
      simp only [handle]
      repeat' refine returns_bind fun _ ↦ ?_
      exact fun _ _ _ ↦ trivial

end Handlers

/-! ## All runs -/

section Runs

variable {cx : Context} {s : Server} {c : AppConfig}

theorem Reached.identitySteps (hc : Reached cx s c) {later earlier : List AppEvent} {e : AppEvent}
    (hhist : c.world.history = later ++ e :: earlier) :
    IdentitySteps cx e (ownEvents e.tid earlier) :=
  Along.of_append (P := AlongOwn (IdentitySteps cx))
    (hhist ▸ hc.traces fun k _ ↦ traces_identitySteps k)

theorem insert_of_state_rises {hash : String} {st : OAuthState} {q : Statement} {b : Server}
    (h : Rises (machine cx) (fun s ↦ s.db.oauthStates.get? hash = some st) q b) :
    q = .sql (.oauthStates (.insert st)) := by
  obtain ⟨hbefore, hafter⟩ := h
  cases q with
  | sql q =>
      cases q with
      | oauthStates q =>
          rcases OAuthStateSql.get?_run hafter with hold | rfl
          · exact absurd hold hbefore
          · rfl
      | _ => exact absurd hafter hbefore
  | _ => exact absurd hafter hbefore

/-- A state that is claimed for an account was stored by one of its sessions. -/
theorem Reached.linkStarted (hc : Reached cx s c) (hstates : s.db.oauthStates = .empty)
    {later earlier : List AppEvent} {e : AppEvent} {st : OAuthState} {a : Uuid}
    (hhist : c.world.history = later ++ e :: earlier) (hclaim : claimedState e = some st)
    (huser : st.userId = some a) : LinkStarted cx a st earlier := by
  obtain ⟨c', hc', hworld⟩ := hc.past hhist
  obtain ⟨hash, hget⟩ : ∃ hash, e.store.db.oauthStates.get? hash = some st := by
    unfold claimedState at hclaim
    split at hclaim
    next hash b => exact ⟨hash, (Option.filter_eq_some_iff.mp hclaim).1⟩
    next => cases hclaim
  have hstart : ¬s.db.oauthStates.get? hash = some st := by simp [hstates]
  obtain ⟨newer, x, older, hsplit, hrise, -⟩ := hc'.rises_of_live
    (fun s : Server ↦ s.db.oauthStates.get? hash = some st) (fun _ _ ↦ Iff.rfl) hstart
      (by simpa [hworld] using hget)
  have hearlier : earlier = newer ++ x :: older :=
    (congrArg World.history hworld).symm.trans hsplit
  have hsteps := Reached.identitySteps hc' hsplit
  cases x with
  | answered => exact hrise.elim
  | ran j k q b =>
      obtain rfl := insert_of_state_rises hrise
      obtain ⟨claims, hsub, rfl, hsession⟩ := hsteps a huser
      exact hearlier ▸ .intro newer j claims b older hsub hsession

theorem identities_guarded (hc : Reached cx s c) (hstates : s.db.oauthStates = .empty) :
    IdentitiesGuarded cx c.world where
  one_holder r₁ h₁ r₂ h₂ hprovider hx := by
    have hkey : r₁.key = r₂.key := Prod.ext hprovider hx
    rw [Table.eq_of_mem h₁ h₂ hkey]
  moved later e₂ mid e₁ earlier provider x a b hhist ha hb hne := by
    obtain ⟨c', hc', hworld⟩ := hc.past hhist
    by_contra hnone
    have hkept : holds provider x a c'.world.store := by
      refine hc'.live_of_kept (holds provider x a) (fun _ _ ↦ Iff.rfl) (by rw [hworld]) ha ?_
      intro e he hlive hend
      have hmem : e ∈ mid ++ [e₁] := by simpa [or_comm] using he
      refine hnone ⟨e, hmem, ?_⟩
      have hin : e ∈ c.world.history := by
        rw [hhist]
        rcases List.mem_cons.mp he with rfl | he <;> simp [*]
      obtain ⟨l, r, hsplit⟩ := List.append_of_mem hin
      have hsteps := hc.identitySteps hsplit
      cases e with
      | answered => exact hend.elim
      | ran i k q s =>
          obtain rfl := delete_of_holds_ends hlive hend
          exact ⟨hsteps, rfl⟩
    rw [hworld] at hkept
    obtain ⟨row, hrow, rfl⟩ := hkept
    obtain ⟨row', hrow', rfl⟩ := hb
    obtain rfl : row = row' := Option.some.inj (hrow.symm.trans hrow')
    exact hne rfl
  attached later e earlier provider x a hhist hrise := by
    have hsteps := hc.identitySteps hhist
    have hlong {newer older : List AppEvent} {y : AppEvent} (h : earlier = newer ++ y :: older) :
        c.world.history = (later ++ e :: newer) ++ y :: older := by
      rw [hhist, h]
      simp
    cases e with
    | answered => exact hrise.elim
    | ran i k q b =>
        obtain ⟨email, rfl⟩ := insert_of_holds_rises hrise
        obtain ⟨query, profile, hk, hx, hvouched⟩ := hsteps
        refine ⟨query, profile, hk, hx, ?_⟩
        rcases hvouched with ⟨e, he, st, hclaim, hprovider, huser⟩ |
          ⟨address, hvouches, e, he, hfound⟩
        · obtain ⟨hin, htid⟩ := mem_ownEvents.mp he
          obtain ⟨newer, older, rfl⟩ := List.append_of_mem hin
          exact .linking newer e older st rfl htid hclaim hprovider huser
            (hc.linkStarted hstates (hlong rfl) hclaim huser)
        · rcases hfound with hfinds | hcreates
          · exact .verified address hvouches e he hfinds
          · exact .created address hvouches e he hcreates
  loggedIn later i k code redirect b earlier hhist := hc.identitySteps hhist

end Runs

theorem identities_guarded_after_signUp :
    ∃ c, Reached .sample (Sample.server .empty) c ∧ holds .google "sub-1" 1002 c.world.store ∧
      IdentitiesGuarded .sample c.world := by
  let profile : ProviderProfile := ⟨"sub-1", some "ada@example.com", true, none⟩
  let query : CallbackQuery := ⟨some "code", some "token0-with-some-more-characters-to-it", none⟩
  let test : AppConfig → Bool := fun c ↦
    (c.world.store.db.oauthIdentities.get? (.google, "sub-1")).any fun row ↦
      decide (row.userId = 1002)
  obtain ⟨c, hc, htest⟩ : ∃ c, Reached .sample (Sample.server .empty) c ∧ test c = true :=
    Reachable.of_schedule (Sample.alone 0 (.oauthLogin .google none) 6 ++
      Sample.alone 1 (.oauthCallback .google query (some profile)) 12) test (by decide) (by decide)
  obtain ⟨row, hrow, huser⟩ := (Option.any_eq_true ..).mp htest
  exact ⟨c, hc, ⟨row, hrow, of_decide_eq_true huser⟩, identities_guarded hc rfl⟩

end ApiStarter
