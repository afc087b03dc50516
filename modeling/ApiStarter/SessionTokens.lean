import ApiStarter.HalfFinished

/-!
# Sessions end

Every way to sign in reads an account once and issues its token from the row it
read.  The token carries the row's `token_version`, which only grows: it is
refused once the password was changed after that read, and as long as the
account is inactive or deleted.  What it is worth is looked up at every use.
-/

namespace ApiStarter

open Interleave Interleave.Prog Relational

/-- The access token an answer carries. -/
def issuedToken : Response → Option Claims
  | .login (.authenticated response) => some response.accessToken
  | .token response => some response.accessToken
  | .qrPolled ⟨_, some response⟩ => some response.accessToken
  | _ => none

/-- An account is looked up by its id or by its email. -/
def readsRow : AppEvent → Bool
  | .ran _ _ (.sql (.users (.findById _))) _ => true
  | .ran _ _ (.sql (.users (.findByEmail _))) _ => true
  | _ => false

/-- Tokens are ended by a password change after the read they were made from, and by
deactivation and deletion; those accepted stand for what the account is now. -/
structure SessionsEnd (cx : Context) (W : AppWorld) : Prop where
  changed : ∀ newer change older i k response b token, W.history = newer ++ change :: older →
    .answered i k (.ok response) b ∈ W.history → issuedToken response = some token →
      changesPassword token.sub change = true →
        (∀ e ∈ newer, e.tid = i → readsRow e = false) → accepts cx token W.store = false
  inactive : ∀ token : Claims,
    ¬userIs token.sub (fun row ↦ row.isLive = true ∧ row.isActive = true) W.store →
      accepts cx token W.store = false
  liveRole : ∀ (token : Claims) (actor : AuthUser),
    ((verifySession token.sub token.tv).alone (machine cx) W.store).1 = .ok actor →
      actor.id = token.sub ∧
        userIs token.sub (fun row ↦ row.isLive = true ∧ row.role = actor.role) W.store

/-! ## One request -/

/-- A token is made from a row the same thread has read. -/
def MintsFromRead : AppEvent → List AppEvent → Prop
  | .answered _ _ (.ok response) _, own => ∀ token, issuedToken response = some token →
      ∃ e ∈ own, readsRow e = true ∧
        userIs token.sub (fun row ↦ row.tokenVersion = token.tv) e.store
  | _, _ => True

section Handlers

variable {cx : Context} {α : Type} {i : ℕ} {k : Request} {own : List AppEvent}

/-- The token stands for this row. -/
def TokenResponse.IsOf (user : User) (response : TokenResponse) : Prop :=
  response.accessToken.sub = user.id ∧ response.accessToken.tv = user.tokenVersion

theorem issueJwt_returns (user : User) : (issueJwt cx user).Returns (TokenResponse.IsOf user) :=
  fun _ ↦ ⟨rfl, rfl⟩

/-- The row of the account was read. -/
def HasRead (user : User) (own : List AppEvent) : Prop :=
  ∃ e ∈ own, readsRow e = true ∧ e.store.db.users.get? user.id = some user

theorem HasRead.mints {user : User} {response : TokenResponse} (h : HasRead user own)
    (hof : response.IsOf user) : ∃ e ∈ own, readsRow e = true ∧
      userIs response.accessToken.sub
        (fun row ↦ row.tokenVersion = response.accessToken.tv) e.store := by
  obtain ⟨e, he, hreads, hget⟩ := h
  exact ⟨e, he, hreads, user, hof.1 ▸ hget, hof.2.symm⟩

theorem mintsFromRead_error (e : AppError) : Delivers MintsFromRead i k (.error e) own :=
  fun _ ↦ trivial

/-- What comes after the account was read. -/
theorem traced_afterRead {p : Req α} {user : User} {R : α → Prop} {Q : α → List AppEvent → Prop}
    (hread : HasRead user own) (hR : p.Returns R) (hQ : ∀ a own, R a → HasRead user own → Q a own) :
    Traced (machine cx) MintsFromRead i k p Q
      (fun e ↦ Delivers MintsFromRead i k (.error e)) own := by
  refine (traced_of_only (S := fun _ ↦ True) (A := HasRead user) (only_true _) hR
    (fun q _ s own h ↦ ⟨trivial, ?_⟩) hread).mono (fun a own h ↦ hQ a own h.1 h.2)
      fun e own _ ↦ mintsFromRead_error e
  obtain ⟨e, he, hreads⟩ := h
  exact ⟨e, List.mem_cons_of_mem _ he, hreads⟩

/-- Before the account is read nothing has to be remembered. -/
theorem traced_beforeRead {p : Req α} {Q : α → List AppEvent → Prop} (hQ : ∀ a own, Q a own) :
    Traced (machine cx) MintsFromRead i k p Q
      (fun e ↦ Delivers MintsFromRead i k (.error e)) own :=
  (traced_of_only (S := fun _ ↦ True) (A := fun _ ↦ True) (only_true _) (returns_true _)
    (fun _ _ _ _ _ ↦ ⟨trivial, trivial⟩) trivial).mono (fun a own _ ↦ hQ a own)
      fun e _ _ ↦ mintsFromRead_error e

/-- Reading an account that has to pass a test. -/
theorem traced_findUser {id : Uuid} {e : AppError} {p : User → Bool}
    {Q : User → List AppEvent → Prop}
    (hQ : ∀ user own', HasRead user own' → Q user own') :
    Traced (machine cx) MintsFromRead i k
      (do let found ← sql (.users (.findById id)); okOr e (found.filter p)) Q
      (fun e ↦ Delivers MintsFromRead i k (.error e)) own := by
  refine traced_bind.mpr (traced_sql (fun _ ↦ trivial) (fun s found hfound ↦ ?_)
    (fun _ _ ↦ mintsFromRead_error _) (mintsFromRead_error _))
  refine (traced_okOr ..).mpr ⟨fun user huser ↦ hQ user _ ⟨_, List.mem_cons_self, rfl, ?_⟩,
    fun _ ↦ mintsFromRead_error e⟩
  obtain ⟨hfind, -⟩ := Option.filter_eq_some_iff.mp huser
  obtain ⟨hget, hid, -⟩ := find?_liveId_eq_some ((Option.some.inj hfound).trans hfind)
  exact hid ▸ hget

theorem traces_login (email password : String) :
    Traces (machine cx) MintsFromRead (.login email password) (handle cx) := by
  intro i
  refine traced_bind.mpr (traced_bind.mpr (traced_sql (fun _ ↦ trivial) (fun s found hfound ↦ ?_)
    (fun _ _ ↦ mintsFromRead_error _) (mintsFromRead_error _)))
  refine traced_bind.mpr ((traced_okOr ..).mpr ⟨fun user huser ↦ ?_, fun _ ↦ mintsFromRead_error _⟩)
  have hread : HasRead user [.ran i (.login email password)
      (.sql (.users (.findByEmail (cx.normalizeEmail email)))) s] := by
    have hfind := (Option.some.inj hfound).trans huser
    exact ⟨_, List.mem_cons_self, rfl, Table.get?_of_mem (Table.find?_eq_some hfind).1⟩
  refine traced_afterRead (R := fun response ↦ ∀ token, response = .authenticated token →
    token.IsOf user) hread ?_ fun response _ hof hread s token htoken ↦ ?_
  · refine returns_bind fun locked ↦ returns_bind fun _ ↦ ?_
    split
    · refine returns_bind fun _ ↦ returns_bind fun _ ↦ returns_bind fun _ ↦ ?_
      split
      · refine returns_bind fun pendingToken ↦ ?_
        rintro token ⟨⟩
      · refine (issueJwt_returns user).bind fun token hof ↦ ?_
        rintro token' ⟨⟩
        exact hof
    · exact returns_bind fun _ ↦ trivial
  · cases response with
    | authenticated response =>
        obtain rfl := Option.some.inj htoken
        exact hread.mints (hof response rfl)
    | twoFactorRequired pendingToken => cases htoken

/-- Signing in with a token made from the account read last. -/
theorem traced_issue {user : User} (hread : HasRead user own) :
    Traced (machine cx) MintsFromRead i k (issueJwt cx user)
      (fun response ↦ Delivers MintsFromRead i k (.ok (.token response)))
      (fun e ↦ Delivers MintsFromRead i k (.error e)) own := by
  refine traced_afterRead hread (issueJwt_returns user) fun response _ hof hread _ token htoken ↦ ?_
  obtain rfl := Option.some.inj htoken
  exact hread.mints hof

theorem traces_twoFactorVerify_mints (pendingToken code : String) :
    Traces (machine cx) MintsFromRead (.twoFactorVerify pendingToken code) (handle cx) := by
  intro i
  refine traced_bind.mpr (traced_bind.mpr (traced_beforeRead fun claim own ↦ ?_))
  rw [← Prog.bind_assoc]
  refine traced_bind.mpr (traced_findUser fun user own hread ↦ ?_)
  refine traced_afterRead hread
    (R := TokenResponse.IsOf user) ?_ fun response _ hof hread _ token htoken ↦ ?_
  · refine returns_bind fun secret ↦ returns_bind fun valid ↦ returns_bind fun _ ↦ ?_
    exact returns_bind fun _ ↦ issueJwt_returns user
  · obtain rfl := Option.some.inj htoken
    exact hread.mints hof

theorem traces_oauthExchange (code : String) :
    Traces (machine cx) MintsFromRead (.oauthExchange code) (handle cx) := by
  intro i
  refine traced_bind.mpr (traced_bind.mpr (traced_beforeRead fun claimed own ↦ ?_))
  refine traced_bind.mpr (traced_beforeRead fun userId own ↦ ?_)
  rw [← Prog.bind_assoc]
  exact traced_bind.mpr (traced_findUser fun user own hread ↦ traced_issue hread)

theorem traces_passkeyLoginFinish (challengeId credential : String) :
    Traces (machine cx) MintsFromRead (.passkeyLoginFinish challengeId credential) (handle cx) := by
  intro i
  refine traced_bind.mpr (traced_bind.mpr (traced_beforeRead fun state own ↦ ?_))
  refine traced_bind.mpr (traced_beforeRead fun userId own ↦ ?_)
  rw [← Prog.bind_assoc]
  refine traced_bind.mpr (traced_findUser fun user own hread ↦ ?_)
  refine traced_afterRead hread
    (R := TokenResponse.IsOf user) ?_ fun response _ hof hread _ token htoken ↦ ?_
  · refine returns_bind fun rows ↦ returns_bind fun result ↦ returns_bind fun _ ↦ ?_
    exact returns_bind fun _ ↦ issueJwt_returns user
  · obtain rfl := Option.some.inj htoken
    exact hread.mints hof

theorem traces_qrPoll (id : String) (secret : Option String) :
    Traces (machine cx) MintsFromRead (.qrPoll id secret) (handle cx) := by
  intro i
  have pending : ∀ (status : String) (own : List AppEvent),
    Delivers MintsFromRead i (.qrPoll id secret)
      (.ok (.qrPolled (QrLoginService.ofStatus status))) own := by
    rintro status own s token ⟨⟩
  refine traced_bind.mpr (traced_bind.mpr (traced_beforeRead fun session own ↦ ?_))
  refine traced_bind.mpr (traced_beforeRead fun _ own ↦ ?_)
  split
  · exact pending _ own
  · exact pending _ own
  · refine traced_bind.mpr (traced_clock fun s ↦ ⟨trivial, ?_⟩)
    split
    · exact pending _ _
    split
    · refine traced_bind.mpr (traced_beforeRead fun consumed own ↦ ?_)
      cases consumed with
      | none => exact pending _ own
      | some userId =>
          dsimp only
          rw [← Prog.bind_assoc]
          refine traced_bind.mpr (traced_findUser fun user own hread ↦ ?_)
          refine traced_afterRead hread (R := fun response ↦ ∀ token, response.token = some token →
            token.IsOf user) ?_ fun response _ hof hread _ token htoken ↦ ?_
          · refine returns_bind fun _ ↦ (issueJwt_returns user).bind fun token hof ↦ ?_
            rintro token' ⟨⟩
            exact hof
          · rcases response with ⟨status, _ | response⟩
            · cases htoken
            · obtain rfl := Option.some.inj htoken
              exact hread.mints (hof response rfl)
    · exact pending _ _

theorem traces_mintsFromRead (k : Request) : Traces (machine cx) MintsFromRead k (handle cx) := by
  have tokenless : (handle cx k).Returns (fun response ↦ issuedToken response = none) →
      Traces (machine cx) MintsFromRead k (handle cx) := fun hR i ↦
    (traced_of_only (S := fun _ ↦ True) (A := fun _ ↦ True) (only_true _) hR
      (fun _ _ _ _ _ ↦ ⟨trivial, trivial⟩) trivial).mono
        (fun response own h s token htoken ↦ by simp [h.1] at htoken) fun e own _ ↦
          mintsFromRead_error e
  cases k with
  | login email password => exact traces_login email password
  | twoFactorVerify pendingToken code => exact traces_twoFactorVerify_mints pendingToken code
  | oauthExchange code => exact traces_oauthExchange code
  | passkeyLoginFinish challengeId credential =>
      exact traces_passkeyLoginFinish challengeId credential
  | qrPoll id secret => exact traces_qrPoll id secret
  | _ =>
      apply tokenless
      simp only [handle]
      repeat' refine returns_bind fun _ ↦ ?_
      rfl

end Handlers

/-! ## All runs -/

theorem sessions_end {cx : Context} {s : Server} {c : AppConfig} (hc : Reached cx s c) :
    SessionsEnd cx c.world := by
  constructor
  case changed =>
    intro newer change older i k response b token hhist hanswered htoken hchange hread
    obtain ⟨later, earlier, hsplit⟩ := List.append_of_mem hanswered
    have hmints : MintsFromRead (.answered i k (.ok response) b) (ownEvents i earlier) :=
      Along.of_append (P := AlongOwn MintsFromRead)
        (hsplit ▸ hc.traces fun k _ ↦ traces_mintsFromRead k)
    obtain ⟨e, hown, hreads, hrow⟩ := hmints token htoken
    obtain ⟨he, htid⟩ := mem_ownEvents.mp hown
    have hmem : e ∈ newer ++ change :: older := by
      rw [← hhist, hsplit]
      simp [he]
    rcases List.mem_append.mp hmem with hnewer | hrest
    · simp [hread e hnewer htid] at hreads
    rcases List.mem_cons.mp hrest with rfl | holder
    · unfold changesPassword at hchange
      split at hchange
      · cases hreads
      · cases hchange
    · exact hc.refused_of_read_before hhist hchange holder hrow
  case inactive =>
    intro token hnot
    rw [Bool.eq_false_iff, Ne, accepts_iff]
    rintro ⟨row, hget, hlive, hactive, -⟩
    exact hnot ⟨row, hget, hlive, hactive⟩
  case liveRole =>
    intro token actor hok
    obtain ⟨row, hget, hlive, -, -, rfl⟩ := verifySession_eq_ok.mp hok
    exact ⟨rfl, row, hget, hlive, rfl⟩

/-- A token that was accepted when it was handed out no longer is. -/
def sessionEnded (s : Server) : AppEvent → Bool
  | .answered _ _ (.ok response) b => (issuedToken response).any fun token ↦
      accepts .sample token b && !accepts .sample token s
  | _ => false

/-- Ada signs in and then changes her password, which ends the session. -/
theorem sessions_end_changed :
    ∃ c, Reached .sample QrSample.start c ∧ SessionsEnd .sample c.world ∧
      ∃ i k response b token, .answered i k (.ok response) b ∈ c.world.history ∧
        issuedToken response = some token ∧ accepts .sample token b = true ∧
          accepts .sample token c.world.store = false := by
  let test : AppConfig → Bool := fun c ↦ c.world.history.any (sessionEnded c.world.store)
  obtain ⟨c, hc, htest⟩ : ∃ c, Reached .sample QrSample.start c ∧ test c = true :=
    Reachable.of_schedule (Sample.alone 0 (.login "ada@example.com" "correct-horse") 3 ++
      PendingSample.changed 1) test (by decide) (by decide)
  obtain ⟨e, he, hrefused⟩ := List.any_eq_true.mp htest
  refine ⟨c, hc, sessions_end hc, ?_⟩
  unfold sessionEnded at hrefused
  split at hrefused
  next i k response b =>
    obtain ⟨token, htoken, hboth⟩ := (Option.any_eq_true ..).mp hrefused
    rw [Bool.and_eq_true, Bool.not_eq_true'] at hboth
    exact ⟨i, k, response, b, token, he, htoken, hboth⟩
  next => cases hrefused

end ApiStarter
