import ApiStarter.Retention

/-!
# When handlers look at old rows

The instant at which a statement runs is the one the clock showed just before.
This follows handlers with that in mind: whatever the answers are and however
long they wait in between, they count links an hour back at most, issue them
with a lifetime, and touch a QR session only while they know it has not ended,
or give up once they found that it has.
-/

namespace ApiStarter

open Interleave Interleave.Prog Relational

/-! ## Programs and the time -/

/-- From a burst at the instant `t` on, every statement satisfies `S` when it runs, apart from
looks at the clock. -/
inductive Timely (S : Time → Statement → Prop) {ε α : Type} :
    Time → Prog Statement.Res ε α → Prop
  | ret {t : Time} (a : α) : Timely S t (.ret a)
  | fail {t : Time} (e : ε) : Timely S t (.fail e)
  | clock {t : Time} {next : Time → Prog Statement.Res ε α} (h : Timely S t (next t)) :
      Timely S t (.stmt .clock next)
  | stmt {t : Time} {q : Statement} {next : q.Res → Prog Statement.Res ε α} (hq : S t q)
      (h : ∀ r t', t ≤ t' → Timely S t' (next r)) : Timely S t (.stmt q next)

/-- From a burst at `t` on, the handler runs statements that look at no overdue row, or looks for
a QR session and reports it as not found when there is none.  An overdue one makes it end without
another statement. -/
inductive Steady {α : Type} : (String → Time → Prop) → Time → Req α → Prop
  | ret {ends : String → Time → Prop} {t : Time} (a : α) : Steady ends t (.ret a)
  | fail {ends : String → Time → Prop} {t : Time} (e : AppError) : Steady ends t (.fail e)
  | clock {ends : String → Time → Prop} {t : Time} {next : Time → Req α}
      (h : Steady ends t (next t)) : Steady ends t (.stmt .clock next)
  | stmt {ends : String → Time → Prop} {t : Time} {q : Statement} {next : q.Res → Req α}
      (hq : q.InTime ends t) (h : ∀ r t', t ≤ t' → Steady ends t' (next r)) :
      Steady ends t (.stmt q next)
  | find {ends : String → Time → Prop} {t : Time} {id : String}
      {next : Option (Option QrSession) → Req α}
      (hfault : ∀ t', t ≤ t' → Steady ends t' (next none))
      (hnone : next (some none) = .fail QrError.notFound.into)
      (hsome : ∀ r t', t ≤ t' →
        Steady (fun id' e ↦ ends id' e ∨ id' = id ∧ e = r.expiresAt) t' (next (some (some r))))
      (hover : ∀ r t', t ≤ t' → Overdue t r.expiresAt →
        Timely (fun _ _ ↦ False) t' (next (some (some r)))) :
      Steady ends t (.stmt (.sql (.qrSessions (.find id))) next)

namespace Timely

variable {S : Time → Statement → Prop} {ε ε' α β : Type} {t : Time} {p : Prog Statement.Res ε α}

theorem bindBoth {f : Except ε α → Prog Statement.Res ε' β} (hp : Timely S t p)
    (hf : ∀ r t', t ≤ t' → Timely S t' (f r)) : Timely S t (p.bindBoth f) := by
  induction hp with
  | ret a => exact hf (.ok a) _ le_rfl
  | fail e => exact hf (.error e) _ le_rfl
  | clock h ih => exact .clock (ih hf)
  | stmt hq h ih =>
      exact .stmt hq fun r t' hle ↦ ih r t' hle fun r' t'' hle' ↦ hf r' t'' (hle.trans hle')

theorem clock_bind {f : Time → Prog Statement.Res ε α} (h : Timely S t (f t)) :
    Timely S t (ApiStarter.clock >>= f) := .clock h

theorem attempt (hp : Timely S t p) : Timely S t (p.attempt : Prog Statement.Res ε' _) :=
  hp.bindBoth fun _ _ _ ↦ .ret _

theorem bind {f : α → Prog Statement.Res ε β} (hp : Timely S t p)
    (hf : ∀ a t', t ≤ t' → Timely S t' (f a)) : Timely S t (p >>= f) := by
  induction hp with
  | ret a => exact hf a _ le_rfl
  | fail e => exact .fail e
  | clock h ih => exact .clock (ih hf)
  | stmt hq h ih =>
      exact .stmt hq fun r t' hle ↦ ih r t' hle fun a t'' hle' ↦ hf a t'' (hle.trans hle')

/-- What comes after a statement that looks at no overdue row. -/
theorem steady_bind {ends : String → Time → Prop} {p : Req α} {f : α → Req β}
    (hp : Timely (Statement.InTime ends) t p) (hf : ∀ a t', t ≤ t' → Steady ends t' (f a)) :
    Steady ends t (p >>= f) := by
  induction hp with
  | ret a => exact hf a _ le_rfl
  | fail e => exact .fail e
  | clock h ih => exact .clock (ih hf)
  | stmt hq h ih =>
      exact .stmt hq fun r t' hle ↦ ih r t' hle fun a t'' hle' ↦ hf a t'' (hle.trans hle')

theorem steady {ends : String → Time → Prop} {p : Req α}
    (hp : Timely (Statement.InTime ends) t p) : Steady ends t p := by
  rw [← bind_ret p]
  exact hp.steady_bind fun a _ _ ↦ .ret a

end Timely

theorem Statement.InTime.mono {ends ends' : String → Time → Prop}
    (hsub : ∀ id e, ends id e → ends' id e) {t : Time} {q : Statement} (h : q.InTime ends t) :
    q.InTime ends' t := by
  unfold Statement.InTime at h ⊢
  split
  · exact h
  · next q =>
      cases q with
      | recordWrongCode id =>
          obtain ⟨e, he, hlt⟩ := h
          exact ⟨e, hsub id e he, hlt⟩
      | _ => exact h
  · exact h
  · exact h
  · trivial

theorem Steady.mono {α : Type} {ends ends' : String → Time → Prop} {t : Time} {p : Req α}
    (h : Steady ends t p) (hsub : ∀ id e, ends id e → ends' id e) : Steady ends' t p := by
  induction h generalizing ends' with
  | ret a => exact .ret a
  | fail e => exact .fail e
  | clock _ ih => exact .clock (ih hsub)
  | stmt hq _ ih => exact .stmt (hq.mono hsub) fun r t' hle ↦ ih r t' hle hsub
  | find _ hnone _ hover ihfault ihsome =>
      refine .find (fun t' hle ↦ ihfault t' hle hsub) hnone (fun r t' hle ↦ ?_) hover
      exact ihsome r t' hle fun id e he ↦ he.imp_left (hsub id e)

theorem Steady.map {α β : Type} {ends : String → Time → Prop} {t : Time} {p : Req α}
    {g : α → β} (h : Steady ends t p) : Steady ends t (p >>= fun a ↦ .ret (g a)) := by
  induction h with
  | ret a => exact .ret _
  | fail e => exact .fail e
  | clock _ ih => exact .clock ih
  | stmt hq _ ih => exact .stmt hq fun r t' hle ↦ ih r t' hle
  | find _ hnone _ hover ihfault ihsome =>
      refine .find (fun t' hle ↦ ihfault t' hle) ?_
        (fun r t' hle ↦ ihsome r t' hle) fun r t' hle h ↦ ?_
      · rw [hnone]
        rfl
      · exact (hover r t' hle h).bind fun _ _ _ ↦ .ret _

/-! ## Statements that never look at old rows -/

/-- Statements that are in time whenever they run, and the clock. -/
@[reducible] def Statement.plain : Statement → Bool
  | .sql (.authTokens (.insert ..)) => false
  | .sql (.authTokens (.countIssuedSince ..)) => false
  | .sql (.qrSessions (.find _)) => false
  | .sql (.qrSessions (.recordWrongCode _)) => false
  | .sql (.jobs _) => false
  | _ => true

theorem Statement.inTime_of_plain {q : Statement} (hq : q.plain = true) (hclock : q ≠ .clock)
    (ends : String → Time → Prop) (t : Time) : q.InTime ends t := by
  cases q with
  | clock => exact hclock rfl
  | sql q =>
      cases q with
      | authTokens q => cases q <;> trivial
      | qrSessions q => cases q <;> trivial
      | jobs q => cases hq
      | _ => trivial
  | _ => trivial

theorem Timely.of_plain {ε α : Type} {p : Prog Statement.Res ε α}
    (hp : p.Only fun q ↦ q.plain = true) {ends : String → Time → Prop} {t : Time} :
    Timely (Statement.InTime ends) t p := by
  induction p generalizing t with
  | ret a => exact .ret a
  | fail e => exact .fail e
  | stmt q next ih =>
      by_cases hclock : q = .clock
      · subst hclock
        exact .clock (ih t (hp.2 t))
      · exact .stmt (Statement.inTime_of_plain hp.1 hclock ends t) fun r t' _ ↦ ih r (hp.2 r)

theorem Steady.of_plain {α : Type} {p : Req α} (hp : p.Only fun q ↦ q.plain = true)
    {ends : String → Time → Prop} {t : Time} : Steady ends t p := (Timely.of_plain hp).steady

section Plain

variable {cx : Context} {ends : String → Time → Prop} {t : Time}

/-- A handler that only runs plain statements. -/
abbrev Plain {ε α : Type} (p : Prog Statement.Res ε α) : Prop := p.Only fun q ↦ q.plain = true

theorem plain_authUser (caller : Presented) (isSafe : Bool) :
    Plain (authUser cx caller isSafe) := by
  cases caller with
  | bearer claims => simp [authUser, verifySession]
  | apiKey raw => simp [authUser, authenticateApiKey, Prog.bind_assoc]

theorem plain_sessionUser (caller : Presented) : Plain (sessionUser cx caller false) :=
  (plain_authUser caller false).bind fun _ ↦ by simp

theorem plain_adminUser (caller : Presented) : Plain (adminUser cx caller false) :=
  (plain_authUser caller false).bind fun _ ↦ by simp

theorem plain_issueJwt {u : User} : Plain (issueJwt cx u) := only_issueJwt rfl

theorem plain_recordAudit {a : Uuid} {action : String} {u : Option Uuid} {d : AuditDetails} :
    Plain (recordAudit a action u d) :=
  .bind (.attempt (by simp)) fun _ ↦ trivial

theorem plain_createWithPassword {email password : String} {name : Option String} {role : Role}
    {verified : Bool} :
    Plain (UsersService.createWithPassword cx email password name role verified) := by
  refine .bind only_rejectPasswordIfPolicyViolation fun _ ↦ .bind ?_ fun hash ↦ ?_
  · simp [hashBlocking]
  · simp [UsersService.insertUser]

theorem plain_setPassword {id : Uuid} {password : String} :
    Plain (UsersService.setPassword cx id password) := by
  refine .bind (by simp [UsersService.require]) fun _ ↦ ?_
  refine .bind only_rejectPasswordIfPolicyViolation fun _ ↦ .bind ?_ fun _ ↦ by simp
  simp [hashBlocking]

theorem plain_update {actor : AuthUser} {id : Uuid} {dto : UpdateUserDto} :
    Plain (UsersService.update actor id dto) := by
  refine .bind (by simp [Policy.checkAdminUpdate]) fun _ ↦ ?_
  refine .bind (by simp [UsersService.require]) fun before ↦ .bind (by simp) fun _ ↦ ?_
  refine .bind only_orThrow fun _ ↦ .bind (by simp) fun _ ↦ .bind ?_ fun _ ↦
    .bind ?_ fun _ ↦ trivial
  · unfold UsersService.auditRole
    repeat' split
    all_goals first | exact plain_recordAudit | trivial
  · unfold UsersService.auditActive
    repeat' split
    all_goals first | exact plain_recordAudit | trivial

theorem plain_delete {actor : AuthUser} {id : Uuid} : Plain (UsersService.delete actor id) := by
  refine .bind (by simp [Policy.checkDelete]) fun _ ↦ ?_
  refine .bind (by simp [UsersService.require]) fun before ↦ .bind (by simp) fun _ ↦ ?_
  refine .bind only_orThrow fun _ ↦ .bind (by simp) fun _ ↦ ?_
  exact .bind plain_recordAudit fun _ ↦ trivial

theorem plain_verifyLogin {pendingToken code : String} :
    Plain (TotpService.verifyLogin cx pendingToken code) := by
  refine .bind (by simp [OneTimeTokenService.peek]) fun claim ↦ .bind (by simp) fun found ↦ ?_
  refine .bind (by simp) fun user ↦ .bind (by simp) fun secret ↦ .bind ?_ fun _ ↦ ?_
  · simp only [TotpService.checkCode, ask_bind, only_stmt]
    refine ⟨trivial, fun accepted ↦ ?_⟩
    cases accepted <;> simp
  · refine .bind (by simp) fun _ ↦ .bind (by simp [OneTimeTokenService.redeem]) fun _ ↦ ?_
    exact plain_issueJwt

theorem plain_start {provider : Provider} {userId : Option Uuid} {path : String} :
    Plain (OAuthService.start cx provider userId path) := by
  simp only [OAuthService.start, only_ensure_bind, only_generateToken_bind, only_clock_bind]
  refine fun _ ↦ ⟨trivial, fun _ ↦ ⟨trivial, fun _ ↦ ⟨trivial, fun _ ↦ ?_⟩⟩⟩
  exact .bind (by simp [OAuthService.insertState]) fun _ ↦ by simp

theorem plain_grantFor {id : Uuid} {redirect : String} :
    Plain (OAuthService.grantFor cx id redirect) := by
  refine .bind (.mapErr (by simp)) fun _ ↦ .bind (by simp) fun _ ↦ .bind (by simp) fun _ ↦ ?_
  refine .bind (by simp) fun _ ↦ ?_
  simp only [only_generateToken_bind, only_clock_bind]
  refine ⟨trivial, fun _ ↦ ⟨trivial, fun _ ↦ ?_⟩⟩
  exact .bind (.mapErr (by simp [OAuthService.insertGrant])) fun _ ↦ trivial

theorem plain_accountFor {email : String} {profile : ProviderProfile} :
    Plain (OAuthService.accountFor cx email profile) := by
  refine .bind (.mapErr (by simp [UsersService.findByEmail])) fun found ↦ ?_
  cases found with
  | some existing => simp
  | none =>
      exact .mapErr (by simp [UsersService.createPasswordless, UsersService.insertUser])

theorem plain_resolve {provider : Provider} {profile : ProviderProfile} {u : Option Uuid}
    {redirect : String} : Plain (OAuthService.resolve cx provider profile u redirect) := by
  have link (id : Uuid) : Plain (OAuthService.link id provider profile) :=
    .bind (.mapErr (by simp)) fun _ ↦ by simp
  refine .bind (.mapErr (by simp)) fun found ↦ ?_
  cases found with
  | some identity =>
      cases u with
      | some userId => exact only_ite.mpr ⟨fun _ ↦ trivial, fun _ ↦ trivial⟩
      | none => exact plain_grantFor
  | none =>
      cases u with
      | some userId =>
          refine .bind (.mapErr (by simp)) fun _ ↦ .bind (by simp) fun _ ↦ ?_
          exact (link userId).bind fun _ ↦ trivial
      | none =>
          refine .bind (by simp) fun email ↦ .bind plain_accountFor fun user ↦ ?_
          exact (link user.id).bind fun _ ↦ plain_grantFor

theorem plain_handleCallback {provider : Provider} {query : CallbackQuery}
    {answer : Option ProviderProfile} :
    Plain (OAuthService.handleCallback cx provider query (.answering answer)) := by
  refine .bind (.attempt ?_) fun r ↦ by cases r <;> trivial
  refine .bind (by simp) fun _ ↦ .bind (.mapErr (by simp)) fun _ ↦ .bind (by simp) fun _ ↦ ?_
  refine .bind (by simp) fun _ ↦ .bind (by simp) fun _ ↦ .bind (by simp) fun _ ↦ ?_
  exact .bind (by simp) fun _ ↦ .bind (by simp) fun _ ↦ plain_resolve

theorem plain_claimChallenge {id : String} {kind : ChallengeKind} {userId : Option Uuid}
    {failed : AppError} : Plain (PasskeysService.claimChallenge cx id kind userId failed) := by
  simp [PasskeysService.claimChallenge]

theorem plain_finishLogin {challengeId credential : String} :
    Plain (PasskeysService.finishLogin cx challengeId credential) := by
  refine .bind plain_claimChallenge fun _ ↦ .bind (by simp) fun _ ↦ ?_
  refine .bind (by simp) fun _ ↦ .bind (by simp) fun _ ↦ .bind (by simp) fun rows ↦ ?_
  refine .bind (by simp) fun result ↦ .bind ?_ fun _ ↦ ?_
  · induction PasskeysService.decoded cx rows with
    | nil => trivial
    | cons entry rest ih =>
        refine .bind ?_ fun _ ↦ ih
        unfold PasskeysService.updateCounter
        split <;> simp
  · exact .bind (by simp) fun _ ↦ plain_issueJwt

end Plain

/-! ## Links -/

section Links

variable {cx : Context} {ends : String → Time → Prop} {t : Time}

/-- A link that is issued lasts from the instant it is issued. -/
theorem timely_issue {u : Uuid} {purpose : TokenPurpose} {ttl : Time} {newEmail : Option String}
    (httl : 0 ≤ ttl) :
    Timely (Statement.InTime ends) t (OneTimeTokenService.issue cx u purpose ttl newEmail) := by
  refine .bind (.of_plain (by simp)) fun _ t₁ _ ↦ ?_
  refine .bind (.of_plain (by simp [generateToken])) fun token t₂ _ ↦ .clock ?_
  have hinsert : Timely (Statement.InTime ends) t₂
      (sql (.authTokens (.insert u purpose token.hash newEmail (t₂ + ttl)))) :=
    .stmt (Int.le_add_of_nonneg_right httl) fun r _ _ ↦ by cases r <;> constructor
  exact hinsert.bind fun _ _ _ ↦ .ret _

/-- The lifetimes of emailed links are not negative. -/
structure Context.LinksLast (cx : Context) : Prop where
  emailVerification : 0 ≤ cx.emailVerificationTtlHours
  emailChange : 0 ≤ cx.emailChangeTtlMinutes
  passwordReset : 0 ≤ cx.passwordResetTtlMinutes

theorem Time.minutes_nonneg {n : ℤ} (h : 0 ≤ n) : 0 ≤ Time.minutes n :=
  Int.mul_nonneg (Int.mul_nonneg h (by decide)) (by decide)

theorem Time.hours_nonneg {n : ℤ} (h : 0 ≤ n) : 0 ≤ Time.hours n :=
  Time.minutes_nonneg (Int.mul_nonneg h (by decide))

variable (hlinks : cx.LinksLast)
include hlinks

theorem timely_sendVerification {u : User} :
    Timely (Statement.InTime ends) t (EmailVerificationService.sendVerification cx u) :=
  .bind (timely_issue (Time.hours_nonneg hlinks.emailVerification)) fun _ _ _ ↦
    .of_plain (by simp)

/-- The links of the last hour are counted at the instant the clock shows. -/
theorem timely_forgot {email : String} :
    Timely (Statement.InTime ends) t (PasswordResetService.forgot cx email) := by
  refine .bind (.of_plain (by simp [UsersService.findByEmail])) fun found t' _ ↦ ?_
  cases found with
  | none => exact .ret _
  | some user =>
      dsimp only
      split
      · refine .bind (.clock (.stmt le_rfl fun r _ _ ↦ ?_)) fun recent _ _ ↦ ?_
        · cases r <;> constructor
        · split
          · exact .ret _
          · exact .bind (timely_issue (Time.minutes_nonneg hlinks.passwordReset)) fun _ _ _ ↦
              .of_plain (by simp)
      · exact .ret _

end Links

theorem timely_login {cx : Context} {ends : String → Time → Prop} {t : Time}
    {email password : String} :
    Timely (Statement.InTime ends) t (SessionService.login cx email password) := by
  refine .bind (.of_plain (by simp [UsersService.findByEmail])) fun _ _ _ ↦ ?_
  refine .bind (.of_plain (by simp)) fun user _ _ ↦ .bind (.of_plain ?_) fun _ _ _ ↦ ?_
  · unfold SessionService.isLocked
    split <;> simp
  · refine .bind (.of_plain (by simp)) fun _ _ _ ↦ ?_
    split
    · refine .bind (.of_plain (by simp)) fun _ _ _ ↦ .bind (.of_plain (by simp)) fun _ _ _ ↦ ?_
      refine .bind (.of_plain (by simp)) fun _ _ _ ↦ ?_
      split
      · exact .bind (timely_issue (Time.minutes_nonneg (by decide))) fun _ _ _ ↦ .ret _
      · exact .bind (.of_plain (plain_issueJwt)) fun _ _ _ ↦ .ret _
    · exact .of_plain (by simp [SessionService.wrongPassword])

/-! ## QR sessions -/

section Qr

variable {cx : Context} {ends : String → Time → Prop} {t : Time} {α : Type}

theorem steady_clock {f : Time → Req α} (h : Steady ends t (f t)) :
    Steady ends t (clock >>= f) := .clock h

theorem steady_ensure {c : Prop} [Decidable c] {e : AppError} {f : Unit → Req α}
    (hf : c → Steady ends t (f ())) : Steady ends t (ensure c e >>= f) := by
  unfold ensure
  split
  next h => exact hf h
  next => exact .fail e

/-- What follows a lookup runs while the session is live. -/
theorem steady_findLive {id : String} {f : QrSession → Req α}
    (hf : ∀ r t', t' < r.expiresAt →
      Steady (fun id' e ↦ ends id' e ∨ id' = id ∧ e = r.expiresAt) t' (f r)) :
    Steady ends t (QrLoginService.findLive id >>= f) := by
  have hcheck (r : QrSession) (now : Time) :
      ((ensure (¬r.expiresAt ≤ now) QrError.expired.into >>= fun _ ↦ ret r) >>= f) =
        ensure (¬r.expiresAt ≤ now) QrError.expired.into >>= fun _ ↦ f r :=
    Prog.bind_assoc _ _ _
  refine .find (fun _ _ ↦ .fail _) rfl (fun r t' _ ↦ .clock ?_) fun r t' hle hover ↦ .clock ?_
  · change Steady _ t' ((ensure (¬r.expiresAt ≤ t') QrError.expired.into >>= fun _ ↦ ret r) >>= f)
    rw [hcheck]
    exact steady_ensure fun hlive ↦ hf r t' (Int.not_le.mp hlive)
  · change Timely _ t' ((ensure (¬r.expiresAt ≤ t') QrError.expired.into >>= fun _ ↦ ret r) >>= f)
    have hclosed : r.expiresAt ≤ t' := (hover.mono hle).lt.le
    simp only [ensure, hclosed, not_true_eq_false, if_false, fail_bind]
    exact .fail _

theorem steady_scan {actor : AuthUser} {id : String} :
    Steady ends t (QrLoginService.scan actor id) := by
  refine steady_findLive fun session t' _ ↦ ?_
  unfold QrLoginService.claimScan
  split
  · refine .stmt trivial fun marked t'' _ ↦ ?_
    cases marked with
    | none => exact .fail _
    | some marked =>
        cases marked with
        | true => exact .ret _
        | false =>
            change Steady _ t'' ((QrLoginService.decideAgain actor id) >>= _)
            unfold QrLoginService.decideAgain
            rw [Prog.bind_assoc]
            refine steady_findLive fun again _ _ ↦ ?_
            exact Steady.of_plain (by simp)
  all_goals exact Steady.of_plain (by simp)

/-- The code is compared, and a wrong one written down, while the session is live. -/
theorem steady_approve {actor : AuthUser} {id code : String} :
    Steady ends t (QrLoginService.approve actor id code) := by
  refine steady_findLive fun session t' hlive ↦ steady_ensure fun _ ↦ ?_
  split
  · refine .stmt ⟨session.expiresAt, .inr ⟨rfl, rfl⟩, hlive⟩ fun cancelled _ _ ↦ ?_
    cases cancelled <;> exact .fail _
  · exact Steady.of_plain (by simp)

theorem steady_reject {actor : AuthUser} {id : String} :
    Steady ends t (QrLoginService.reject actor id) := by
  refine steady_findLive fun session _ _ ↦ Steady.of_plain ?_
  simp [QrLoginService.requireScannedBy]

theorem plain_collectToken {id : String} : Plain (QrLoginService.collectToken cx id) := by
  refine .bind (by simp) fun consumed ↦ ?_
  cases consumed with
  | none => trivial
  | some userId =>
      refine .bind (by simp) fun _ ↦ .bind (by simp) fun _ ↦ .bind (by simp) fun _ ↦ ?_
      exact (plain_issueJwt).bind fun _ ↦ trivial

theorem steady_poll {id : String} {secret : Option String} :
    Steady ends t (QrLoginService.poll cx id secret) := by
  refine .find (fun _ _ ↦ .fail _) rfl (fun r t' _ ↦ ?_) fun r t' hle hover ↦ ?_
  · refine steady_ensure fun _ ↦ ?_
    split
    · exact .ret _
    · exact .ret _
    · apply steady_clock
      split
      · exact .ret _
      · split
        · exact Steady.of_plain plain_collectToken
        · exact .ret _
  · refine .bind (p := ensure _ _) ?_ fun _ t'' hle' ↦ ?_
    · unfold ensure
      split <;> constructor
    · split
      · exact .ret _
      · exact .ret _
      · apply Timely.clock_bind
        have hclosed : r.expiresAt ≤ t'' := (hover.mono (hle.trans hle')).lt.le
        rw [if_pos hclosed]
        exact .ret _

end Qr

/-! ## All requests -/

/-- One statement of the cleanup, and what it goes on with. -/
theorem Timely.sweep_bind {q : Sql} {t : Time} {β : Type} {f : q.Res → Req β}
    (hq : (Statement.sql q).Sweeps t) (hf : ∀ r t', t ≤ t' → Timely Statement.Sweeps t' (f r)) :
    Timely Statement.Sweeps t (sql q >>= f) := by
  refine .stmt hq fun r t' hle ↦ ?_
  cases r with
  | none => exact .fail _
  | some r => exact hf r t' hle

/-- The cleanup deletes what expired an hour before it looked at the clock, or earlier. -/
theorem timely_cleanup (cx : Context) (t : Time) :
    Timely Statement.Sweeps t (handle cx .cleanup) := by
  have later {t' : Time} (hle : t ≤ t') : t - Time.hours 1 ≤ t' - Time.hours 1 :=
    Int.sub_le_sub_right hle _
  have hrun : Timely Statement.Sweeps t runCleanup := by
    apply Timely.clock_bind
    refine .sweep_bind le_rfl fun _ t₁ h₁ ↦ .sweep_bind (later h₁) fun _ t₂ h₂ ↦ ?_
    refine .sweep_bind (later (h₁.trans h₂)) fun _ t₃ h₃ ↦ ?_
    refine .sweep_bind (later ((h₁.trans h₂).trans h₃)) fun _ t₄ h₄ ↦ ?_
    refine .sweep_bind (later (((h₁.trans h₂).trans h₃).trans h₄)) fun _ t₅ _ ↦ ?_
    apply Timely.clock_bind
    refine .sweep_bind trivial fun _ t₆ _ ↦ ?_
    apply Timely.clock_bind
    refine .stmt trivial fun r _ _ ↦ ?_
    cases r <;> constructor
  exact hrun.bind fun _ _ _ ↦ .ret _

/-- Every request but the cleanup looks at no overdue row, or finds a QR session so. -/
theorem steady_handle {cx : Context} (hlinks : cx.LinksLast) {k : Request} (hk : k ≠ .cleanup)
    (ends : String → Time → Prop) (t : Time) : Steady ends t (handle cx k) := by
  have session (caller : Presented) {α : Type} {f : AuthUser → Req α}
      (hf : ∀ actor t', Steady ends t' (f actor)) :
      Steady ends t (sessionUser cx caller false >>= f) :=
    Timely.steady_bind (.of_plain (plain_sessionUser caller)) fun actor t' _ ↦ hf actor t'
  cases k with
  | createUser caller email password displayName role =>
      apply Steady.of_plain
      refine .bind (plain_adminUser caller) fun _ ↦ ?_
      refine .bind (.bind plain_createWithPassword fun _ ↦ ?_) fun _ ↦ trivial
      exact .bind plain_recordAudit fun _ ↦ trivial
  | updateUser caller id dto =>
      apply Steady.of_plain
      refine .bind (plain_adminUser caller) fun _ ↦ ?_
      exact .bind plain_update fun _ ↦ trivial
  | deleteUser caller id =>
      apply Steady.of_plain
      refine .bind (plain_adminUser caller) fun _ ↦ ?_
      exact .bind plain_delete fun _ ↦ trivial
  | updateProfile caller displayName =>
      apply Steady.of_plain
      refine .bind (plain_authUser caller false) fun _ ↦ ?_
      exact .bind (only_updateProfile rfl) fun _ ↦ trivial
  | bootstrapAdmin email password =>
      apply Steady.of_plain
      refine .bind (.bind (by simp) fun _ ↦ ?_) fun _ ↦ trivial
      refine only_ite.mpr ⟨fun _ ↦ trivial, fun _ ↦ ?_⟩
      exact .bind (.attempt plain_createWithPassword) fun _ ↦ trivial
  | register email password =>
      refine (Timely.bind (.bind (.of_plain plain_createWithPassword) fun user _ _ ↦ ?_)
        fun _ _ _ ↦ .ret _).steady
      exact .bind (.attempt (timely_sendVerification hlinks)) fun _ _ _ ↦ .ret _
  | login email password => exact (timely_login.bind fun _ _ _ ↦ .ret _).steady
  | twoFactorSetup caller =>
      refine session caller fun actor _ ↦ Steady.of_plain ?_
      refine .bind ?_ fun _ ↦ trivial
      exact .bind (by simp [TotpService.requireActiveUser]) fun _ ↦ by simp
  | twoFactorEnable caller code =>
      refine session caller fun actor _ ↦ Steady.of_plain ?_
      refine .bind ?_ fun _ ↦ trivial
      exact .bind (by simp [TotpService.requireActiveUser]) fun _ ↦ by simp
  | twoFactorDisable caller password =>
      refine session caller fun actor _ ↦ Steady.of_plain ?_
      refine .bind ?_ fun _ ↦ trivial
      exact .bind (by simp [TotpService.requireActiveUser]) fun _ ↦ by simp
  | twoFactorVerify pendingToken code =>
      apply Steady.of_plain
      exact .bind plain_verifyLogin fun _ ↦ trivial
  | forgotPassword email => exact ((timely_forgot hlinks).bind fun _ _ _ ↦ .ret _).steady
  | resetPassword token newPassword =>
      apply Steady.of_plain
      refine .bind ?_ fun _ ↦ trivial
      refine .bind (by simp [OneTimeTokenService.redeem]) fun _ ↦ .bind (by simp) fun _ ↦ ?_
      refine .bind (by simp) fun _ ↦ .bind plain_setPassword fun _ ↦ ?_
      simp [OneTimeTokenService.invalidate]
  | changePassword caller current new =>
      refine session caller fun actor _ ↦ Steady.of_plain ?_
      refine .bind ?_ fun _ ↦ trivial
      refine .bind (by simp [EmailVerificationService.currentUser]) fun _ ↦ ?_
      exact .bind (by simp) fun _ ↦ .bind plain_setPassword fun _ ↦ by simp
  | inviteUser caller email displayName role =>
      refine Timely.steady (.bind (.of_plain (plain_adminUser caller)) fun _ _ _ ↦ ?_)
      refine .bind (.bind (.of_plain (by simp [generateToken])) fun _ _ _ ↦ ?_) fun _ _ _ ↦ .ret _
      refine .bind (.of_plain plain_createWithPassword) fun user _ _ ↦ ?_
      exact .bind (timely_issue (Time.hours_nonneg hlinks.emailVerification)) fun _ _ _ ↦
        .of_plain (by simp)
  | verifyEmail token =>
      apply Steady.of_plain
      refine .bind ?_ fun _ ↦ trivial
      exact .bind (by simp [OneTimeTokenService.redeem]) fun _ ↦ by simp
  | resendVerification caller =>
      refine Timely.steady (.bind (.of_plain (plain_authUser caller false)) fun _ _ _ ↦ ?_)
      refine .bind (.bind (.of_plain ?_) fun user _ _ ↦ ?_) fun _ _ _ ↦ .ret _
      · simp [EmailVerificationService.currentUser]
      · split
        · exact .ret _
        · exact timely_sendVerification hlinks
  | requestEmailChange caller password newEmail =>
      refine session caller fun actor _ ↦ Timely.steady (.bind ?_ fun _ _ _ ↦ .ret _)
      refine .bind (.of_plain (by simp [EmailVerificationService.currentUser])) fun user _ _ ↦ ?_
      refine .bind (.of_plain (by simp)) fun _ _ _ ↦ .bind (.of_plain (by simp)) fun _ _ _ ↦ ?_
      refine .bind (.of_plain (by simp [UsersService.findByEmail])) fun _ _ _ ↦ ?_
      refine .bind (.of_plain (by simp)) fun _ _ _ ↦ ?_
      exact .bind (timely_issue (Time.minutes_nonneg hlinks.emailChange)) fun _ _ _ ↦
        .of_plain (by simp)
  | confirmEmailChange token =>
      apply Steady.of_plain
      refine .bind ?_ fun _ ↦ trivial
      refine .bind (by simp [OneTimeTokenService.redeem]) fun _ ↦ .bind (by simp) fun _ ↦ ?_
      refine .bind (.bind (by simp) fun _ ↦ only_orThrow) fun _ ↦ ?_
      simp [OneTimeTokenService.invalidate]
  | oauthLogin provider redirect =>
      apply Steady.of_plain
      exact .bind plain_start fun _ ↦ trivial
  | oauthLink caller provider =>
      refine session caller fun actor _ ↦ Steady.of_plain ?_
      exact .bind plain_start fun _ ↦ trivial
  | oauthCallback provider query answer =>
      apply Steady.of_plain
      exact .bind plain_handleCallback fun _ ↦ trivial
  | oauthExchange code =>
      apply Steady.of_plain
      refine .bind ?_ fun _ ↦ trivial
      refine .bind (by simp) fun _ ↦ .bind (by simp) fun _ ↦ .bind (by simp) fun _ ↦ ?_
      exact .bind (by simp) fun _ ↦ plain_issueJwt
  | oauthUnlink caller provider =>
      refine session caller fun actor _ ↦ Steady.of_plain ?_
      refine .bind ?_ fun _ ↦ trivial
      simp [OAuthService.unlink]
  | passkeyRegisterBegin caller =>
      refine session caller fun actor _ ↦ Steady.of_plain ?_
      refine .bind ?_ fun _ ↦ trivial
      refine .bind (by simp [PasskeysService.activeUser]) fun _ ↦ .bind (by simp) fun _ ↦ ?_
      refine .bind (by simp) fun _ ↦ .bind (by simp) fun _ ↦ .bind (by simp) fun _ ↦ ?_
      simp [PasskeysService.storeChallenge]
  | passkeyRegisterFinish caller challengeId credential name =>
      refine session caller fun actor _ ↦ Steady.of_plain ?_
      refine .bind ?_ fun _ ↦ trivial
      exact .bind plain_claimChallenge fun _ ↦ by simp
  | passkeyLoginBegin =>
      apply Steady.of_plain
      refine .bind (.bind (by simp) fun _ ↦ ?_) fun _ ↦ trivial
      exact .bind (by simp) fun _ ↦ by simp [PasskeysService.storeChallenge]
  | passkeyLoginFinish challengeId credential =>
      apply Steady.of_plain
      exact .bind plain_finishLogin fun _ ↦ trivial
  | passkeyDelete caller id =>
      refine session caller fun actor _ ↦ Steady.of_plain ?_
      refine .bind ?_ fun _ ↦ trivial
      simp [PasskeysService.delete]
  | qrCreate ip agent =>
      apply Steady.of_plain
      refine .bind ?_ fun _ ↦ trivial
      simp [QrLoginService.create]
  | qrScan caller id => exact session caller fun actor _ ↦ steady_scan.map
  | qrApprove caller id code => exact session caller fun actor _ ↦ steady_approve.map
  | qrReject caller id => exact session caller fun actor _ ↦ steady_reject.map
  | qrPoll id secret => exact steady_poll.map
  | cleanup => exact absurd rfl hk

end ApiStarter
