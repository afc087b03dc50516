import ApiStarter.Calls

/-!
# Requests that hand out secrets

Secrets are handed out in a few places of the services, and many requests run
through them.  A discipline that holds in these places and that every other
statement keeps is kept by every request.
-/

namespace ApiStarter

open Interleave Interleave.Prog

@[reducible] def Effect.mints : Effect → Bool
  | .issueToken _ | .insertState | .insertGrant | .insertChallenge | .renewRecoveryCodes
  | .createQr => true
  | _ => false

/-- A discipline that is kept where secrets are handed out and by all other statements. -/
structure Minters (cx : Context) (D : AppDiscipline) : Prop where
  spare : ∀ (i : ℕ) (k : Request) (q : Statement), q.effect.mints = false →
    ∀ W, D.Inv W → D.Keeps W (W.ran (machine cx) i k q)
  issue : ∀ i k u purpose ttl newEmail,
    Maintains (machine cx) D i k (OneTimeTokenService.issue cx u purpose ttl newEmail)
  start : ∀ i k provider u path,
    Maintains (machine cx) D i k (OAuthService.start cx provider u path)
  grantFor : ∀ i k u redirect, Maintains (machine cx) D i k (OAuthService.grantFor cx u redirect)
  storeChallenge : ∀ i k kind u state,
    Maintains (machine cx) D i k (PasskeysService.storeChallenge cx kind u state)
  create : ∀ i k ip agent, Maintains (machine cx) D i k (QrLoginService.create cx ip agent)
  confirmSetup : ∀ i k actor code,
    Maintains (machine cx) D i k (TotpService.confirmSetup cx actor code)
  deleteCodes : ∀ (i : ℕ) (k : Request) (u : Uuid) W, D.Inv W →
    D.Keeps W (W.ran (machine cx) i k (.sql (.recoveryCodes (.deleteAll u))))
  answers : ∀ (a : Except AppError Response) (i : ℕ) (k : Request) W, D.Inv W →
    D.Keeps W (W.answered i k a)

namespace Minters

variable {cx : Context} {D : AppDiscipline} (h : Minters cx D) {i : ℕ} {k : Request} {α ε : Type}
include h

theorem of_only {p : Prog Statement.Res ε α} (hp : p.Only fun q ↦ q.effect.mints = false) :
    Maintains (machine cx) D i k p := .of_only hp fun q hq ↦ h.spare i k q hq

theorem handleCallback {provider : Provider} {query : CallbackQuery}
    {answer : Option ProviderProfile} :
    Maintains (machine cx) D i k
      (OAuthService.handleCallback cx provider query (.answering answer)) := by
  refine .bind (.attempt ?_) fun r ↦ by cases r <;> exact .ret _
  refine .bind (h.of_only (by simp)) fun _ ↦ ?_
  refine .bind (.mapErr (h.of_only (by simp))) fun _ ↦ ?_
  refine .bind (h.of_only (by simp)) fun state ↦ .bind (h.of_only (by simp)) fun _ ↦ ?_
  refine .bind (h.of_only (by simp)) fun _ ↦ .bind (h.of_only (by simp)) fun _ ↦ ?_
  refine .bind (h.of_only (by simp)) fun _ ↦ .bind (h.of_only (by simp)) fun profile ↦ ?_
  refine .bind (.mapErr (h.of_only (by simp))) fun found ↦ ?_
  have link (u : Uuid) : Maintains (machine cx) D i k (OAuthService.link u provider profile) :=
    .bind (.mapErr (h.of_only (by simp))) fun _ ↦ h.of_only (by simp)
  cases found with
  | some identity =>
      cases state.userId with
      | some u => exact h.of_only (only_ite.mpr ⟨fun _ ↦ trivial, fun _ ↦ trivial⟩)
      | none => exact h.grantFor i k _ _
  | none =>
      cases state.userId with
      | some u =>
          refine .bind (.mapErr (h.of_only (by simp))) fun _ ↦ ?_
          refine .bind (h.of_only (by simp)) fun _ ↦ .bind (link u) fun _ ↦ .ret _
      | none =>
          refine .bind (h.of_only (by simp)) fun email ↦ .bind ?_ fun user ↦
            .bind (link user.id) fun _ ↦ h.grantFor i k _ _
          exact h.of_only (only_accountFor (fun q hq ↦ by rw [hq]) (by simp))

theorem createWithPassword {email password : String} {name : Option String} {role : Role}
    {verified : Bool} : Maintains (machine cx) D i k
      (UsersService.createWithPassword cx email password name role verified) := by
  exact h.of_only (only_createWithPassword (fun q hq ↦ by rw [hq]) (by simp))

theorem sendVerification {u : User} :
    Maintains (machine cx) D i k (EmailVerificationService.sendVerification cx u) :=
  .bind (h.issue i k _ _ _ _) fun _ ↦ h.of_only (by simp)

theorem login {email password : String} :
    Maintains (machine cx) D i k (SessionService.login cx email password) := by
  refine .bind (h.of_only (by simp [UsersService.findByEmail])) fun _ ↦ ?_
  refine .bind (h.of_only (by simp)) fun user ↦ ?_
  refine .bind (h.of_only ?_) fun _ ↦ .bind (h.of_only (by simp)) fun _ ↦ ?_
  · unfold SessionService.isLocked
    split <;> simp
  · split
    · refine .bind (h.of_only (by simp)) fun _ ↦ .bind (h.of_only (by simp)) fun _ ↦ ?_
      refine .bind (h.of_only (by simp)) fun _ ↦ ?_
      split
      · exact .bind (h.issue i k _ _ _ _) fun _ ↦ .ret _
      · exact .bind (h.of_only (only_issueJwt rfl)) fun _ ↦ .ret _
    · exact h.of_only (by simp [SessionService.wrongPassword])

theorem forgot {email : String} :
    Maintains (machine cx) D i k (PasswordResetService.forgot cx email) := by
  refine .bind (h.of_only (by simp [UsersService.findByEmail])) fun found ↦ ?_
  cases found with
  | none => exact .ret _
  | some user =>
      dsimp only
      split
      · refine .bind (h.of_only (by simp [OneTimeTokenService.issuedWithin])) fun _ ↦ ?_
        split
        · exact .ret _
        · exact .bind (h.issue i k _ _ _ _) fun _ ↦ h.of_only (by simp)
      · exact .ret _

theorem handles (k : Request) : Handles (machine cx) D k (handle cx) := by
  have session (i : ℕ) (caller : Presented) :
      Maintains (machine cx) D i k (sessionUser cx caller false) :=
    h.of_only (only_sessionUser (fun q hq ↦ by rw [hq]) _ _)
  have auth (i : ℕ) (caller : Presented) :
      Maintains (machine cx) D i k (authUser cx caller false) :=
    h.of_only (only_authUser (fun q hq ↦ by rw [hq]) _ _)
  refine .of_maintains (fun i ↦ ?_) fun a i ↦ h.answers a i k
  by_cases hk : k.effects.any Effect.mints = true
  · cases k with
    | register email password =>
        refine .bind (.bind h.createWithPassword fun user ↦ ?_) fun _ ↦ .ret _
        exact .bind (.attempt h.sendVerification) fun _ ↦ .ret _
    | login email password => exact .bind h.login fun _ ↦ .ret _
    | twoFactorEnable caller code =>
        exact .bind (session i caller) fun _ ↦ .bind (h.confirmSetup i _ _ _) fun _ ↦ .ret _
    | twoFactorDisable caller password =>
        refine .bind (session i caller) fun actor ↦ .bind ?_ fun _ ↦ .ret _
        refine .bind (h.of_only (by simp [TotpService.requireActiveUser])) fun user ↦ ?_
        refine .bind (h.of_only (by simp)) fun _ ↦ .bind (h.of_only (by simp)) fun _ ↦ ?_
        exact .of_only (S := fun q ↦ q = .sql (.recoveryCodes (.deleteAll user.id)))
          (only_sql.mpr rfl) fun q hq ↦ hq ▸ h.deleteCodes i _ user.id
    | forgotPassword email => exact .bind h.forgot fun _ ↦ .ret _
    | inviteUser caller email name role =>
        refine .bind (h.of_only (only_adminUser (fun q hq ↦ by rw [hq]) _ _)) fun _ ↦ ?_
        refine .bind (.bind (h.of_only (by simp [generateToken])) fun _ ↦ ?_) fun _ ↦ .ret _
        refine .bind h.createWithPassword fun user ↦ .bind (h.issue i _ _ _ _ _) fun _ ↦ ?_
        exact h.of_only (by simp)
    | resendVerification caller =>
        refine .bind (auth i caller) fun _ ↦ .bind ?_ fun _ ↦ .ret _
        refine .bind (h.of_only (by simp [EmailVerificationService.currentUser])) fun user ↦ ?_
        split
        · exact .ret _
        · exact h.sendVerification
    | requestEmailChange caller password newEmail =>
        refine .bind (session i caller) fun _ ↦ .bind ?_ fun _ ↦ .ret _
        refine .bind (h.of_only (by simp [EmailVerificationService.currentUser])) fun user ↦ ?_
        refine .bind (h.of_only (by simp)) fun _ ↦ .bind (h.of_only (by simp)) fun _ ↦ ?_
        refine .bind (h.of_only (by simp [UsersService.findByEmail])) fun _ ↦ ?_
        refine .bind (h.of_only (by simp)) fun _ ↦ .bind (h.issue i _ _ _ _ _) fun _ ↦ ?_
        exact h.of_only (by simp)
    | oauthLogin provider redirect => exact .bind (h.start i _ _ _ _) fun _ ↦ .ret _
    | oauthLink caller provider =>
        exact .bind (session i caller) fun _ ↦ .bind (h.start i _ _ _ _) fun _ ↦ .ret _
    | oauthCallback provider query answer => exact .bind h.handleCallback fun _ ↦ .ret _
    | passkeyRegisterBegin caller =>
        refine .bind (session i caller) fun _ ↦ .bind ?_ fun _ ↦ .ret _
        refine .bind (h.of_only (by simp [PasskeysService.activeUser])) fun user ↦ ?_
        refine .bind (h.of_only (by simp)) fun _ ↦ .bind (h.of_only (by simp)) fun _ ↦ ?_
        refine .bind (h.of_only (by simp)) fun _ ↦ .bind (h.of_only (by simp)) fun _ ↦ ?_
        exact h.storeChallenge i _ _ _ _
    | passkeyLoginBegin =>
        refine .bind (.bind (h.of_only (by simp)) fun _ ↦ ?_) fun _ ↦ .ret _
        exact .bind (h.of_only (by simp)) fun _ ↦ h.storeChallenge i _ _ _ _
    | qrCreate ip agent => exact .bind (h.create i _ _ _) fun _ ↦ .ret _
    | _ => simp at hk
  · refine h.of_only (handle_only k fun q hq ↦ ?_)
    rcases List.mem_cons.mp hq with hq | hq
    · rw [hq]
    · simp only [List.any_eq_true, not_exists, not_and, Bool.not_eq_true] at hk
      exact hk _ hq

end Minters

end ApiStarter
