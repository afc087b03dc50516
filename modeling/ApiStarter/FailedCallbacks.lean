import ApiStarter.Calls

/-!
# Failed callbacks

A callback creates the account, then the identity, then the code to sign in with.
Nothing is taken back, so a callback that fails on the way leaves what it has
written so far.  It fails there when somebody else takes the identity first, when
the account is no longer fit to sign in, or when the database fails.
-/

namespace ApiStarter

open Interleave Interleave.Prog Relational

def Request.isOAuthCallback : Request → Bool
  | .oauthCallback .. => true
  | _ => false

/-- The statement writes a new account or a new identity. -/
def leavesRow : AppEvent → Bool
  | .ran _ _ (.sql (.users (.create id new))) before =>
      ((UsersSql.create id new).run before.now before.db.users).1.any Except.isOk
  | .ran _ _ (.sql (.oauthIdentities (.insert _ provider x _))) before =>
      (before.db.oauthIdentities.get? (provider, x)).isNone
  | _ => false

/-- Unless something has been written, a failure is harmless. -/
def leavesNothing (own : List AppEvent) : Bool := own.all fun e ↦ !leavesRow e

/-- An account that is given a code to sign in with. -/
def User.maySignIn (cx : Context) (u : User) : Bool :=
  u.isLive && u.isActive && (!cx.requireVerifiedEmail || u.isEmailVerified)

/-- What a callback needs in order to go on: the identity is free, the account may sign in, the
code is new. -/
def goesOn (cx : Context) : AppEvent → Bool
  | .ran _ _ (.sql (.oauthIdentities (.insert _ provider x _))) before =>
      (before.db.oauthIdentities.get? (provider, x)).isNone
  | .ran _ _ (.sql (.users (.findById id))) before =>
      (before.db.users.get? id).any (User.maySignIn cx)
  | .ran _ _ (.sql (.loginGrants (.insert grant))) before =>
      (before.db.loginGrants.get? grant.codeHash).isNone
  | _ => true

/-- Once a callback has written an account or an identity, its statements find what they need,
and none fails. -/
def callbackGuard (cx : Context) : AppGuard where
  runs e h := e.request.isOAuthCallback = true → leavesNothing (ownEvents e.tid h) = true ∨
    goesOn cx e = true
  faults i k h := k.isOAuthCallback = true → leavesNothing (ownEvents i h) = true
  cuts _ _ _ := True

def isFailurePage : AppEvent → Bool
  | .answered _ _ (.ok (.callback (.failed _))) _ => true
  | _ => false

/-- A callback that ends on the failure page has written no account and no identity. -/
def FailsClean (e : AppEvent) (own : List AppEvent) : Prop :=
  isFailurePage e = true → leavesNothing own = true

instance (e : AppEvent) (own : List AppEvent) : Decidable (FailsClean e own) :=
  inferInstanceAs (Decidable (_ → _))

instance (cx : Context) (e : AppEvent) (h : List AppEvent) :
    Decidable ((callbackGuard cx).runs e h) :=
  inferInstanceAs (Decidable (_ → _ ∨ _))

instance (cx : Context) (i : ℕ) (k : Request) (h : List AppEvent) :
    Decidable ((callbackGuard cx).faults i k h) :=
  inferInstanceAs (Decidable (_ → _))

instance (cx : Context) (i : ℕ) (k : Request) (h : List AppEvent) :
    Decidable ((callbackGuard cx).cuts i k h) := .isTrue trivial

/-! ## One callback -/

section Callback

variable {cx : Context} {i : ℕ} {k : Request} {own : List AppEvent}

theorem leavesNothing_cons {e : AppEvent} (he : leavesRow e = false) :
    leavesNothing (e :: own) = leavesNothing own := by
  simp [leavesNothing, he]

/-- A walk through a callback that fails only while it has written nothing. -/
abbrev FailsInTime {ε α : Type} (cx : Context) (i : ℕ) (k : Request) (p : Prog Statement.Res ε α)
    (Q : α → List AppEvent → Prop) (own : List AppEvent) : Prop :=
  TracedIf (machine cx)
    (fun e own ↦ e.request.isOAuthCallback = true → leavesNothing own = true ∨ goesOn cx e = true)
    (fun own ↦ k.isOAuthCallback = true → leavesNothing own = true) FailsClean i k p Q
    (fun _ own ↦ leavesNothing own = true) own

theorem failsClean_ran {q : Statement} {s : Server} : FailsClean (.ran i k q s) own := nofun

/-- Any answer but the failure page. -/
def Proceeds (i : ℕ) (k : Request) (outcome : CallbackOutcome) (_ : List AppEvent) : Prop :=
  ∀ s, isFailurePage (.answered i k (.ok (.callback outcome)) s) = false

/-- Statements that cannot fail. -/
theorem failsInTime_ask {ε : Type} {q : Statement} (hfault : Statement.fault q = none)
    {Q : q.Res → List AppEvent → Prop}
    (hQ : ∀ s, Q ((machine cx).exec q s).1 (.ran i k q s :: own)) :
    FailsInTime cx i k (ask q : Prog Statement.Res ε q.Res) Q own :=
  ⟨fun s _ ↦ ⟨failsClean_ran, hQ s⟩, fun _ r hr ↦ by simp [machine, hfault] at hr⟩

variable (hk : k.isOAuthCallback = true)
include hk

theorem failsInTime_query {q : Sql} {Q : q.Res → List AppEvent → Prop}
    (hran : ∀ s, leavesNothing own = true ∨ goesOn cx (.ran i k (.sql q) s) = true →
      (∀ r, (q.run s.now s.db).1 = some r → Q r (.ran i k (.sql q) s :: own)) ∧
        ((q.run s.now s.db).1 = none → leavesNothing (.ran i k (.sql q) s :: own) = true)) :
    @FailsInTime _ (no_index q.Res) cx i k (sql q) Q own :=
  tracedIf_sql (fun s hs ↦ ⟨failsClean_ran, hran s (hs hk)⟩) fun hF ↦ hF hk

/-- Statements that write no account and no identity. -/
theorem failsInTime_sql {q : Sql} {Q : q.Res → List AppEvent → Prop}
    (hquiet : ∀ s, leavesRow (.ran i k (.sql q) s) = false)
    (hsafe : ∀ s, goesOn cx (.ran i k (.sql q) s) = true → (q.run s.now s.db).1 ≠ none)
    (hQ : ∀ s r, leavesNothing own = true ∨ goesOn cx (.ran i k (.sql q) s) = true →
      (q.run s.now s.db).1 = some r → Q r (.ran i k (.sql q) s :: own)) :
    @FailsInTime _ (no_index q.Res) cx i k (sql q) Q own := by
  refine failsInTime_query hk fun s hs ↦ ⟨fun r ↦ hQ s r hs, fun hnone ↦ ?_⟩
  rw [leavesNothing_cons (hquiet s)]
  exact hs.resolve_right fun hgoes ↦ hsafe s hgoes hnone

theorem failsInTime_grantFor (userId : Uuid) (redirect : String) :
    FailsInTime cx i k (OAuthService.grantFor cx userId redirect) (Proceeds i k) own := by
  refine tracedIf_bind.mpr (tracedIf_mapErr.mpr (failsInTime_sql hk (fun _ ↦ rfl)
    (by rintro _ _ ⟨⟩) fun s found hs hfound ↦ ?_))
  obtain rfl : s.db.users.find? (liveId userId) = found := Option.some.inj hfound
  have hclean : leavesNothing (.ran i k (.sql (.users (.findById userId))) s :: own) =
      leavesNothing own := leavesNothing_cons rfl
  have hfit (h : ∀ row, s.db.users.get? userId = some row → row.maySignIn cx = false) :
      leavesNothing (.ran i k (.sql (.users (.findById userId))) s :: own) = true := by
    rw [hclean]
    refine hs.resolve_right fun hgoes ↦ ?_
    obtain ⟨row, hrow, hmay⟩ := (Option.any_eq_true ..).mp hgoes
    simp [h row hrow] at hmay
  refine tracedIf_bind.mpr ((tracedIf_okOr ..).mpr ⟨fun user huser ↦ ?_, fun hnone ↦ ?_⟩)
  swap
  · refine hfit fun row hrow ↦ ?_
    rw [find?_liveId, hrow] at hnone
    simp_all [User.maySignIn]
  obtain ⟨hrow, -, -⟩ := find?_liveId_eq_some huser
  refine tracedIf_bind.mpr ((tracedIf_ensure ..).mpr ⟨fun _ ↦ ?_, fun hinactive ↦ ?_⟩)
  swap
  · exact hfit fun row h ↦ by simp_all [User.maySignIn]
  refine tracedIf_bind.mpr ((tracedIf_ensure ..).mpr ⟨fun _ ↦ ?_, fun hunverified ↦ ?_⟩)
  swap
  · exact hfit fun row h ↦ by simp_all [User.maySignIn]
  refine tracedIf_bind.mpr (tracedIf_bind.mpr (failsInTime_ask rfl fun _ ↦ ?_))
  refine tracedIf_bind.mpr (failsInTime_ask rfl fun _ ↦ ?_)
  refine tracedIf_bind.mpr (tracedIf_mapErr.mpr (tracedIf_bind.mpr
    (failsInTime_ask rfl fun _ ↦ ?_)))
  refine tracedIf_bind.mpr (failsInTime_sql hk (fun _ ↦ rfl) (by rintro _ _ ⟨⟩) fun _ _ _ _ ↦ ?_)
  refine failsInTime_sql hk (fun _ ↦ rfl) (fun s hnew hnone ↦ ?_)
    fun _ _ _ _ _ ↦ rfl
  simp only [Sql.run, LoginGrantSql.run] at hnone
  split at hnone
  next hinsert =>
    exact absurd (Table.insert?_eq_none.mp hinsert) (by simpa [goesOn] using hnew)
  next => cases hnone

theorem failsInTime_link (userId : Uuid) (provider : Provider) (profile : ProviderProfile) :
    FailsInTime cx i k (OAuthService.link userId provider profile) (fun _ _ ↦ True) own := by
  refine tracedIf_bind.mpr (tracedIf_mapErr.mpr (failsInTime_query hk fun s hs ↦ ?_))
  obtain ⟨hinserted, -⟩ := OAuthIdentitySql.run_insert s.now s.db.oauthIdentities userId provider
    profile.providerUserId profile.email
  refine ⟨fun linked hlinked ↦ ?_, fun hnone ↦ absurd (hinserted.symm.trans hnone) (by simp)⟩
  refine (tracedIf_ensure ..).mpr ⟨fun _ ↦ trivial, fun htaken ↦ ?_⟩
  -- the identity is taken, which the guard rules out once something was written
  have hfree : (s.db.oauthIdentities.get? (provider, profile.providerUserId)).isNone = false := by
    rw [Option.some.inj (hinserted.symm.trans hlinked)]
    simpa using htaken
  rw [leavesNothing_cons (e := .ran i k (.sql (.oauthIdentities (.insert userId provider
    profile.providerUserId profile.email))) s) hfree]
  exact hs.resolve_right fun hgoes ↦ absurd (hfree.symm.trans hgoes) (by decide)

theorem failsInTime_accountFor (hown : leavesNothing own = true) (email : String)
    (profile : ProviderProfile) :
    FailsInTime cx i k (OAuthService.accountFor cx email profile) (fun _ _ ↦ True) own := by
  refine tracedIf_bind.mpr (tracedIf_mapErr.mpr (failsInTime_sql hk (fun _ ↦ rfl) nofun
    fun s found _ _ ↦ ?_))
  have hread := (leavesNothing_cons (e := .ran i k (.sql (.users (.findByEmail
    (cx.normalizeEmail email)))) s) rfl).trans hown
  cases found with
  | some existing =>
      refine tracedIf_bind.mpr ((tracedIf_ensure ..).mpr ⟨fun _ ↦ ?_, fun _ ↦ hread⟩)
      exact tracedIf_bind.mpr ((tracedIf_ensure ..).mpr ⟨fun _ ↦ trivial, fun _ ↦ hread⟩)
  | none =>
      refine tracedIf_mapErr.mpr (tracedIf_bind.mpr (failsInTime_ask rfl fun s₁ ↦ ?_))
      have hdrawn := (leavesNothing_cons (e := .ran i k .draw s₁) rfl).trans hread
      refine tracedIf_bind.mpr (failsInTime_query hk fun s₂ _ ↦ ?_)
      refine ⟨fun created hcreated ↦ ?_, fun hnone ↦ ?_⟩
      · cases created with
        | ok user => exact trivial
        | error e =>
            refine (leavesNothing_cons ?_).trans hdrawn
            exact (congrArg (Option.any Except.isOk) hcreated).trans rfl
      · refine (leavesNothing_cons ?_).trans hdrawn
        exact (congrArg (Option.any Except.isOk) hnone).trans rfl

theorem failsInTime_resolve (hown : leavesNothing own = true) (provider : Provider)
    (profile : ProviderProfile) (linkingUser : Option Uuid) (redirect : String) :
    FailsInTime cx i k (OAuthService.resolve cx provider profile linkingUser redirect)
      (Proceeds i k) own := by
  refine tracedIf_bind.mpr (tracedIf_mapErr.mpr (failsInTime_sql hk (fun _ ↦ rfl) nofun
    fun s found _ _ ↦ ?_))
  have hread := (leavesNothing_cons (e := .ran i k (.sql (.oauthIdentities (.find provider
    profile.providerUserId))) s) rfl).trans hown
  cases found with
  | some identity =>
      cases linkingUser with
      | some userId =>
          by_cases hsame : userId = identity.userId
          · simp only [if_pos hsame]
            exact fun _ ↦ rfl
          · simp only [if_neg hsame]
            exact hread
      | none => exact failsInTime_grantFor hk _ _
  | none =>
      cases linkingUser with
      | some userId =>
          refine tracedIf_bind.mpr (tracedIf_mapErr.mpr (failsInTime_sql hk (fun _ ↦ rfl) nofun
            fun s₁ _ _ _ ↦ ?_))
          refine tracedIf_bind.mpr ((tracedIf_okOr ..).mpr ⟨fun _ _ ↦ ?_, fun _ ↦ ?_⟩)
          · exact tracedIf_bind.mpr ((failsInTime_link hk _ _ _).mono (fun _ _ _ _ ↦ rfl)
              fun _ _ h ↦ h)
          · exact (leavesNothing_cons (e := .ran i k (.sql (.users (.findById userId))) s₁)
              rfl).trans hread
      | none =>
          refine tracedIf_bind.mpr ((tracedIf_okOr ..).mpr ⟨fun email _ ↦ ?_, fun _ ↦ hread⟩)
          refine tracedIf_bind.mpr ((failsInTime_accountFor hk hread email profile).mono
            (fun user _ _ ↦ ?_) fun _ _ h ↦ h)
          exact tracedIf_bind.mpr ((failsInTime_link hk _ _ _).mono
            (fun _ _ _ ↦ failsInTime_grantFor hk _ _) fun _ _ h ↦ h)

theorem failsInTime_callback (provider : Provider) (query : CallbackQuery)
    (answer : Option ProviderProfile) :
    FailsInTime cx i k (OAuthService.callback cx provider query (.answering answer))
      (Proceeds i k) [] := by
  refine tracedIf_bind.mpr ((tracedIf_okOr ..).mpr ⟨fun stateRaw _ ↦ ?_, fun _ ↦ rfl⟩)
  refine tracedIf_bind.mpr (tracedIf_mapErr.mpr (failsInTime_sql hk (fun _ ↦ rfl) nofun
    fun s claimed _ _ ↦ ?_))
  refine tracedIf_bind.mpr ((tracedIf_okOr ..).mpr ⟨fun state _ ↦ ?_, fun _ ↦ rfl⟩)
  refine tracedIf_bind.mpr ((tracedIf_ensure ..).mpr ⟨fun _ ↦ ?_, fun _ ↦ rfl⟩)
  refine tracedIf_bind.mpr ((tracedIf_ensure ..).mpr ⟨fun _ ↦ ?_, fun _ ↦ rfl⟩)
  refine tracedIf_bind.mpr ((tracedIf_okOr ..).mpr ⟨fun _ _ ↦ ?_, fun _ ↦ rfl⟩)
  refine tracedIf_bind.mpr ((tracedIf_okOr ..).mpr ⟨fun _ _ ↦ ?_, fun _ ↦ rfl⟩)
  refine tracedIf_bind.mpr ((tracedIf_okOr ..).mpr ⟨fun profile _ ↦ ?_, fun _ ↦ rfl⟩)
  exact failsInTime_resolve hk rfl _ _ _ _

end Callback

/-! ## All runs -/

section Runs

variable {cx : Context} {s : Server}

theorem tracedIf_failsClean (k : Request) (i : ℕ) :
    TracedIf (machine cx)
      (fun e own ↦ e.request.isOAuthCallback = true →
        leavesNothing own = true ∨ goesOn cx e = true)
      (fun own ↦ k.isOAuthCallback = true → leavesNothing own = true) FailsClean i k (handle cx k)
      (fun a ↦ Delivers FailsClean i k (.ok a))
      (fun e ↦ Delivers FailsClean i k (.error e)) [] := by
  have aside (hanswer : (handle cx k).Returns fun a ↦
      ∀ s, isFailurePage (.answered i k (.ok a) s) = false) :
      Traced (machine cx) FailsClean i k (handle cx k) (fun a ↦ Delivers FailsClean i k (.ok a))
        (fun e ↦ Delivers FailsClean i k (.error e)) [] :=
    traced_of_quiet (Prog.only_true _) hanswer (fun q _ s own ↦ failsClean_ran)
      (fun a own' h _ s hpage ↦ absurd hpage (by simp [h s])) fun e own' _ s ↦ nofun
  cases k with
  | oauthCallback provider query answer =>
      refine tracedIf_bind.mpr (tracedIf_bind.mpr (tracedIf_bindBoth.mpr ?_))
      exact (failsInTime_callback rfl provider query answer).mono
        (fun outcome own h s hpage ↦ absurd hpage (by simp [h s]))
          fun reason own hclean s _ ↦ hclean
  | _ =>
      refine (aside ?_).under
      simp only [handle]
      repeat' refine returns_bind fun _ ↦ ?_
      exact fun _ ↦ rfl

/-- In every run in which a callback that has written something finds what it needs to go on, and
none of its statements fails, a callback that fails has written neither an account nor an
identity. -/
theorem failed_callbacks_clean {c : AppConfig}
    (hc : ReachableIf (callbackGuard cx) (machine cx) (handle cx) (fun _ ↦ True) s c) :
    Along (AlongOwn FailsClean) c.world.history :=
  (hc.follows (fun _ _ h ↦ h) (fun _ _ _ h ↦ h) fun k _ i ↦ tracedIf_failsClean k i).along

end Runs

namespace FailedCallbackSample

open Sample

/-- Bob has an account, Ada has none. -/
def start : Server := server (.single (account 2 "bob@example.com" .user))

def ada : ProviderProfile := ⟨"sub-1", some "ada@example.com", true, none⟩

def query (n : ℕ) : CallbackQuery := ⟨some "code", some (Context.sample.randomToken n), none⟩

/-- A sign-in and a link flow of Bob, both with Ada's account at the provider. -/
def flows : List (Action Request ℕ) :=
  alone 0 (.oauthLogin .google none) 6 ++ alone 1 (.oauthLink (bearer 2 .user) .google) 8

/-- The sign-in creates an account, then the link flow takes the identity. -/
def overtaken : List (Action Request ℕ) :=
  flows ++ .start (.oauthCallback .google (query 0) (some ada)) :: List.replicate 5 (.run 2) ++
    alone 3 (.oauthCallback .google (query 2) (some ada)) 4 ++ [.run 2, .answer 2]

/-- The sign-in goes through, and the link flow is refused. -/
def inTurn : List (Action Request ℕ) :=
  flows ++ alone 2 (.oauthCallback .google (query 0) (some ada)) 12 ++
    alone 3 (.oauthCallback .google (query 2) (some ada)) 2

end FailedCallbackSample

theorem failed_callbacks_clean_inTurn :
    ∃ c, ReachableIf (callbackGuard .sample) (machine .sample) (handle .sample) (fun _ ↦ True)
      FailedCallbackSample.start c ∧ (∃ e ∈ c.world.history, isFailurePage e = true) ∧
        Along (AlongOwn FailsClean) c.world.history := by
  let test : AppConfig → Bool := fun c ↦ c.world.history.any isFailurePage
  obtain ⟨c, hc, htest⟩ : ∃ c, ReachableIf (callbackGuard .sample) (machine .sample)
      (handle .sample) (fun _ ↦ True) FailedCallbackSample.start c ∧ test c = true :=
    ReachableIf.of_schedule FailedCallbackSample.inTurn test (by decide) (by decide)
  exact ⟨c, hc, List.any_eq_true.mp htest, failed_callbacks_clean hc⟩

/-- A sign-in that is overtaken by a link flow fails and leaves an account with no way to sign
in. -/
theorem failed_callback_leaves_account :
    ∃ c, Reached .sample FailedCallbackSample.start c ∧
      ¬Along (AlongOwn FailsClean) c.world.history ∧
        c.world.store.db.signInMethodCount 1004 = some 0 := by
  let test : AppConfig → Bool := fun c ↦
    !decide (Along (AlongOwn FailsClean) c.world.history) &&
      decide (c.world.store.db.signInMethodCount 1004 = some 0)
  obtain ⟨c, hc, htest⟩ : ∃ c, Reached .sample FailedCallbackSample.start c ∧ test c = true :=
    Reachable.of_schedule FailedCallbackSample.overtaken test (by decide) (by decide)
  simp only [test, Bool.and_eq_true, Bool.not_eq_true', decide_eq_false_iff_not,
    decide_eq_true_eq] at htest
  exact ⟨c, hc, htest.1, htest.2⟩

end ApiStarter
