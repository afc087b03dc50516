import ApiStarter.Freshness

/-!
# Verified addresses

A verification or reset link carries the account and not the address it was
mailed to.  It still proves control of the address it verifies: an account that
is not verified has never changed its address.
-/

namespace ApiStarter

open Interleave Interleave.Prog Relational

/-- The recipient and the raw token of an email with a link. -/
def Mail.link : Mail → Option (String × String)
  | .verification recipient rawToken => some (recipient, rawToken)
  | .passwordReset recipient rawToken => some (recipient, rawToken)
  | .invitation recipient rawToken => some (recipient, rawToken)
  | .emailChangeConfirm newEmail rawToken => some (newEmail, rawToken)
  | .passwordChanged _ => none
  | .emailChangeNotice .. => none

/-- A link is mailed: its recipient and the hash under which it is stored. -/
def sentLink (cx : Context) : AppEvent → Option (String × String)
  | .ran _ _ (.mail m) _ => m.link.map fun l ↦ (l.1, cx.sha256 l.2)
  | _ => none

/-- A mailed link is redeemed. -/
def redeemedLink : AppEvent → Option AuthToken
  | .ran _ _ (.sql (.authTokens (.claim purpose hash))) before =>
      if purpose = .twoFactorPending then none
      else (before.db.authTokens.get? hash).filter (AuthToken.isRedeemable purpose before.now)
  | _ => none

/-- The account is created by a callback whose provider vouches for the address. -/
def createsVouched (cx : Context) (u : Uuid) (email : String) : AppEvent → Bool
  | .ran _ (.oauthCallback _ _ (some profile)) (.sql (.users (.create id new))) _ =>
      decide (id = u) && decide (new.email = email) && profile.emailVerified &&
        profile.email.any fun raw ↦ decide (cx.normalizeEmail raw = email)
  | _ => false

def createsBootstrapAdmin (u : Uuid) (email : String) : AppEvent → Bool
  | .ran _ (.bootstrapAdmin ..) (.sql (.users (.create id new))) _ =>
      decide (id = u) && decide (new.email = email)
  | _ => false

/-- The account is verified with this address. -/
def User.verifiedAs (email : String) (row : User) : Prop :=
  row.isEmailVerified = true ∧ row.email = email

/-- The event makes the account verified with this address. -/
def Verifies (cx : Context) (u : Uuid) (email : String) (e : AppEvent) : Prop :=
  e.Ran (Rises (machine cx) (userIs u (User.verifiedAs email)))

/-- Someone who controls the address has shown it for the account. -/
inductive ControlProven (cx : Context) (u : Uuid) (email : String) (h : List AppEvent) : Prop
  | link (later : List AppEvent) (redeemed : AppEvent) (earlier : List AppEvent) (sent : AppEvent)
      (t : AuthToken) (hhist : h = later ++ redeemed :: earlier)
      (ht : redeemedLink redeemed = some t) (hu : t.userId = u) (hsent : sent ∈ earlier)
      (haddress : sentLink cx sent = some (email, t.tokenHash))
  | provider (e : AppEvent) (he : e ∈ h) (hmade : Verifies cx u email e)
      (hcreates : createsVouched cx u email e = true)
  | bootstrap (e : AppEvent) (he : e ∈ h) (hmade : Verifies cx u email e)
      (hcreates : createsBootstrapAdmin u email e = true)

/-- Links are not guessed: one that is redeemed was mailed before. -/
def followsMail (cx : Context) (e : AppEvent) (earlier : List AppEvent) : Bool :=
  (redeemedLink e).all fun t ↦ earlier.any fun x ↦
    (sentLink cx x).any fun l ↦ decide (l.2 = t.tokenHash)

/-! ## One statement -/

/-- The account is verified or still has this address. -/
def User.verifiedOrAt (email : String) (row : User) : Prop :=
  row.isEmailVerified = true ∨ row.email = email

section Statements

variable {cx : Context} {u : Uuid} {email : String} {s : Server} {q : Statement}

/-- A statement marks the address verified, puts a verified one in its place, or leaves both. -/
theorem UsersSql.address_onRow (now : Time) (users : Table User.id) (row : User) (q : UsersSql) :
    (q = .markEmailVerified row.id ∧ (q.onRow now users row).email = row.email ∧
      (row.isEmailVerified = true → (q.onRow now users row).isEmailVerified = true)) ∨
    (q = .changeEmail row.id (q.onRow now users row).email ∧
      (q.onRow now users row).isEmailVerified = true) ∨
    ((q.onRow now users row).email = row.email ∧
      (q.onRow now users row).isEmailVerified = row.isEmailVerified) := by
  cases q with
  | markEmailVerified id =>
      by_cases hid : row.id = id
      · subst hid
        refine .inl ⟨rfl, ?_, fun hverified ↦ ?_⟩
        · simp only [onRow]
          split <;> rfl
        · simp only [onRow]
          split
          · obtain ⟨t, ht⟩ := Option.isSome_iff_exists.mp hverified
            simp [User.isEmailVerified, ht]
          · exact hverified
      · exact .inr (.inr (by simp [onRow, liveId, hid]))
  | changeEmail id newEmail =>
      simp only [onRow]
      split
      · exact .inr (.inr ⟨rfl, rfl⟩)
      · split
        next hlive =>
          obtain rfl : row.id = id := by simpa [liveId] using ((Bool.and_eq_true _ _).mp hlive).1
          exact .inr (.inl ⟨rfl, rfl⟩)
        next => exact .inr (.inr ⟨rfl, rfl⟩)
  | _ =>
      refine .inr (.inr ?_)
      simp only [onRow]
      repeat' split
      all_goals simp [UserPatch.apply, User.markDeleted, User.withFailedLogin, User.isEmailVerified]

/-- An account that is not verified keeps its address. -/
theorem verifiedOrAt_onRow (now : Time) (users : Table User.id) (row : User) (q : UsersSql)
    (h : row.verifiedOrAt email) : (q.onRow now users row).verifiedOrAt email := by
  rcases UsersSql.address_onRow now users row q with ⟨-, hemail, hverified⟩ | ⟨-, hverified⟩ |
    ⟨hemail, hverified⟩
  · exact h.imp hverified hemail.trans
  · exact .inl hverified
  · exact h.imp hverified.trans hemail.trans

/-- How an account comes to be verified with an address. -/
theorem verifiedAs_rises (h : Rises (machine cx) (userIs u (User.verifiedAs email)) q s) :
    (∃ new, q = .sql (.users (.create u new)) ∧ new.emailVerified = true ∧ new.email = email) ∨
    (q = .sql (.users (.markEmailVerified u)) ∧
      userIs u (fun row ↦ row.isEmailVerified = false ∧ row.email = email) s) ∨
    q = .sql (.users (.changeEmail u email)) := by
  obtain ⟨hbefore, row', hrow', hverified, hemail⟩ := h
  have unchanged : ¬s.db.users.get? u = some row' := fun hrow ↦
    hbefore ⟨row', hrow, hverified, hemail⟩
  cases q with
  | sql q =>
      cases q with
      | users q =>
          simp only [exec_sql, Sql.run] at hrow'
          cases hget : s.db.users.get? u with
          | none =>
              obtain ⟨new, rfl, rfl⟩ := UsersSql.get?_run_none hget hrow'
              refine .inl ⟨new, rfl, ?_, hemail⟩
              by_contra hnew
              simp [NewUser.row, User.isEmailVerified, hnew] at hverified
          | some row =>
              have hid : row.id = u := Table.key_of_get? hget
              rw [UsersSql.get?_run hget q, Option.some.injEq] at hrow'
              subst hrow'
              rcases UsersSql.address_onRow s.now s.db.users row q with ⟨heq, hsame, -⟩ | ⟨heq, -⟩ |
                ⟨hsame, hkept⟩
              · refine .inr (.inl ⟨by rw [heq, hid], row, hget, ?_, hsame.symm.trans hemail⟩)
                rw [← Bool.not_eq_true]
                exact fun hold ↦ hbefore ⟨row, hget, hold, hsame.symm.trans hemail⟩
              · refine .inr (.inr ?_)
                rw [heq, hid, hemail]
              · exact absurd ⟨row, hget, hkept.symm.trans hverified,
                  hsame.symm.trans hemail⟩ hbefore
      | _ => exact absurd hrow' unchanged
  | _ => exact absurd hrow' unchanged

end Statements

/-! ## One request -/

/-- The event leaves the account with this address. -/
def LeavesAt (cx : Context) (u : Uuid) (email : String) (e : AppEvent) : Prop :=
  e.Ran fun q s ↦ userIs u (fun row ↦ row.email = email) ((machine cx).exec q s).2

/-- The thread has had the account before it with this address. -/
def SeenAt (cx : Context) (u : Uuid) (email : String) (own : List AppEvent) : Prop :=
  ∃ e ∈ own, LeavesAt cx u email e

theorem SeenAt.mono {cx : Context} {u : Uuid} {email : String} {own own' : List AppEvent}
    (h : SeenAt cx u email own) (hown : own ⊆ own') : SeenAt cx u email own' := by
  obtain ⟨e, he, hleaves⟩ := h
  exact ⟨e, hown he, hleaves⟩

def StoresLink (u : Uuid) (purpose : TokenPurpose) (hash : String) (newEmail : Option String)
    (e : AppEvent) : Prop :=
  e.Ran fun q _ ↦ ∃ expiresAt, q = .sql (.authTokens (.insert u purpose hash newEmail expiresAt))

/-- The thread has stored a link under this hash, for the address it mails it to. -/
def StoredFor (cx : Context) (email hash : String) (own : List AppEvent) : Prop :=
  ∃ u purpose newEmail, (∃ e ∈ own, StoresLink u purpose hash newEmail e) ∧
    (purpose = .emailChange → newEmail = some email ∧ ∃ typed, email = cx.normalizeEmail typed) ∧
      (purpose ≠ .emailChange → SeenAt cx u email own)

/-- The thread has redeemed a link of the account. -/
def Redeemed (u : Uuid) (purpose : TokenPurpose) (newEmail : Option String) (own : List AppEvent) :
    Prop :=
  ∃ e ∈ own, ∃ t, redeemedLink e = some t ∧ t.userId = u ∧ t.purpose = purpose ∧
    t.newEmail = newEmail

/-- Accounts are verified on creation only by those who may, later only through a link the
thread has redeemed, and links are mailed to the address they are stored for. -/
def AddressSteps (cx : Context) : AppEvent → List AppEvent → Prop
  | .ran i k (.sql (.users (.create u new))) b, _ => new.emailVerified = true →
      createsVouched cx u new.email (.ran i k (.sql (.users (.create u new))) b) = true ∨
        createsBootstrapAdmin u new.email (.ran i k (.sql (.users (.create u new))) b) = true
  | .ran _ _ (.sql (.users (.markEmailVerified u))) _, own =>
      ∃ purpose newEmail, purpose ≠ .emailChange ∧ Redeemed u purpose newEmail own
  | .ran _ _ (.sql (.users (.changeEmail u email))) _, own =>
      ∃ newEmail, Redeemed u .emailChange (some newEmail) own ∧ email = cx.normalizeEmail newEmail
  | .ran _ _ (.mail m) _, own => ∀ email rawToken, m.link = some (email, rawToken) →
      StoredFor cx email (cx.sha256 rawToken) own
  | _, _ => True

section Handlers

variable {cx : Context} {i : ℕ} {k : Request} {own : List AppEvent}

@[reducible] def Effect.concernsAddress : Effect → Bool
  | .createUser | .markVerified | .changeEmail | .mailLink => true
  | _ => false

theorem addressSteps_of_effect {q : Statement} (hq : q.effect.concernsAddress = false) (s : Server)
    (own : List AppEvent) : AddressSteps cx (.ran i k q s) own := by
  unfold AddressSteps
  split
  next heq =>
    cases heq
    cases hq
  next heq =>
    cases heq
    cases hq
  next heq =>
    cases heq
    cases hq
  next heq =>
    cases heq
    intro email rawToken hlink
    unfold Mail.link at hlink
    split at hlink
    all_goals first | exact absurd hlink (Option.some_ne_none _).symm | cases hq
  next => trivial

/-- A part of a handler that does nothing to addresses. -/
theorem traced_aside {α ε : Type} {p : Prog Statement.Res ε α} {Q : α → List AppEvent → Prop}
    {E : ε → List AppEvent → Prop} (hp : p.Only fun q ↦ q.effect.concernsAddress = false)
    (hQ : ∀ a own', own ⊆ own' → Q a own') (hE : ∀ e own', E e own') :
    Traced (machine cx) (AddressSteps cx) i k p Q E own :=
  traced_of_quiet hp (returns_true _) (fun _ hq s own ↦ addressSteps_of_effect hq s own)
    (fun a own' _ h ↦ hQ a own' h) fun e own' _ ↦ hE e own'

theorem traced_sendLink {u : Uuid} {purpose : TokenPurpose} {ttl : Time} {newEmail : Option String}
    {email : String} {mail : String → Mail} {Q : Unit → List AppEvent → Prop}
    {E : AppError → List AppEvent → Prop} (hlink : ∀ raw, (mail raw).link = some (email, raw))
    (haddress : ∀ own', own ⊆ own' →
      (purpose = .emailChange → newEmail = some email ∧ ∃ typed, email = cx.normalizeEmail typed) ∧
        (purpose ≠ .emailChange → SeenAt cx u email own'))
    (hQ : ∀ own', Q () own') (hE : ∀ e own', E e own') :
    Traced (machine cx) (AddressSteps cx) i k
      (do let raw ← OneTimeTokenService.issue cx u purpose ttl newEmail; send (mail raw)) Q E
        own := by
  refine traced_bind.mpr (traced_bind.mpr (traced_aside (by simp) (fun _ own₁ h₁ ↦ ?_) hE))
  refine traced_bind.mpr (traced_bind.mpr ((traced_ask _).mpr
    ⟨fun s₂ ↦ ⟨addressSteps_of_effect rfl s₂ _, ?_⟩, by rintro _ ⟨⟩⟩))
  refine traced_bind.mpr (traced_clock fun s₃ ↦ ⟨addressSteps_of_effect rfl s₃ _, ?_⟩)
  refine traced_bind.mpr (traced_sql (fun s₄ ↦ addressSteps_of_effect rfl s₄ _) (fun s₄ _ _ ↦ ?_)
    (fun _ _ ↦ hE _ _) (hE _ _))
  refine (traced_ask _).mpr ⟨fun s₅ ↦ ⟨fun email' raw' hlink' ↦ ?_, hQ _⟩, by rintro _ ⟨⟩⟩
  obtain ⟨rfl, rfl⟩ : email = email' ∧ _ = raw' := by simpa [hlink] using hlink'
  refine ⟨u, purpose, newEmail, ⟨_, List.mem_cons_self, _, rfl⟩, haddress _ ?_⟩
  intro e he
  simp [h₁ he]

theorem traced_insertUser {new : NewUser} {Q : User → List AppEvent → Prop}
    {E : AppError → List AppEvent → Prop}
    (hnew : ∀ id s own, AddressSteps cx (.ran i k (.sql (.users (.create id new))) s) own)
    (hQ : ∀ user own', SeenAt cx user.id user.email own' → Q user own') (hE : ∀ e own', E e own') :
    Traced (machine cx) (AddressSteps cx) i k (UsersService.insertUser cx new) Q E own := by
  refine traced_bind.mpr ((traced_ask _).mpr ⟨fun s₁ ↦ ⟨addressSteps_of_effect rfl s₁ _, ?_⟩,
    by rintro _ ⟨⟩⟩)
  refine traced_bind.mpr (traced_sql (fun s₂ ↦ hnew _ s₂ _) (fun s₂ created hcreated ↦ ?_)
    (fun _ _ ↦ hE _ _) (hE _ _))
  cases created with
  | error e => exact hE _ _
  | ok user =>
      obtain ⟨rfl, -, hget⟩ := UsersSql.create_eq_ok hcreated
      exact hQ _ _ ⟨_, List.mem_cons_self, _, hget, rfl⟩

theorem traced_createWithPassword {email password : String} {name : Option String} {role : Role}
    {verified : Bool} {Q : User → List AppEvent → Prop} {E : AppError → List AppEvent → Prop}
    (hnew : ∀ id hash s own, AddressSteps cx (.ran i k (.sql (.users (.create id
      ⟨cx.normalizeEmail email, hash, name, role, verified, true⟩))) s) own)
    (hQ : ∀ user own', SeenAt cx user.id user.email own' → Q user own') (hE : ∀ e own', E e own') :
    Traced (machine cx) (AddressSteps cx) i k
      (UsersService.createWithPassword cx email password name role verified) Q E own := by
  refine traced_bind.mpr (traced_aside only_rejectPasswordIfPolicyViolation (fun _ _ _ ↦ ?_) hE)
  refine traced_bind.mpr (traced_aside (by simp [hashBlocking]) (fun hash _ _ ↦ ?_) hE)
  exact traced_insertUser (fun id ↦ hnew id hash) hQ hE

/-- An account that is read is seen with its address. -/
theorem traced_findById {u : Uuid} {Q : Option User → List AppEvent → Prop}
    {E : AppError → List AppEvent → Prop} (hQ : ∀ found own', own ⊆ own' →
      (∀ user, found = some user → user.id = u ∧ SeenAt cx u user.email own') → Q found own')
    (hE : ∀ e own', E e own') :
    Traced (machine cx) (AddressSteps cx) i k (sql (.users (.findById u))) Q E own := by
  refine traced_sql (fun s ↦ addressSteps_of_effect rfl s _) (fun s found hfound ↦ ?_)
    (fun _ _ ↦ hE _ _) (hE _ _)
  refine hQ found _ (List.subset_cons_self _ _) fun user huser ↦ ?_
  obtain ⟨hget, hid, -⟩ := find?_liveId_eq_some ((Option.some.inj hfound).trans huser)
  exact ⟨hid, _, List.mem_cons_self, user, hget, rfl⟩

theorem traced_findByEmail {email : String} {Q : Option User → List AppEvent → Prop}
    {E : AppError → List AppEvent → Prop} (hQ : ∀ found own', own ⊆ own' →
      (∀ user, found = some user → SeenAt cx user.id user.email own') → Q found own')
    (hE : ∀ e own', E e own') :
    Traced (machine cx) (AddressSteps cx) i k (UsersService.findByEmail cx email) Q E own := by
  refine traced_sql (fun s ↦ addressSteps_of_effect rfl s _) (fun s found hfound ↦ ?_)
    (fun _ _ ↦ hE _ _) (hE _ _)
  refine hQ found _ (List.subset_cons_self _ _) fun user huser ↦ ?_
  have hrow := (Table.find?_eq_some ((Option.some.inj hfound).trans huser)).1
  exact ⟨_, List.mem_cons_self, user, Table.get?_of_mem hrow, rfl⟩

theorem traced_currentUser {actor : AuthUser} {Q : User → List AppEvent → Prop}
    {E : AppError → List AppEvent → Prop}
    (hQ : ∀ user own', SeenAt cx user.id user.email own' → Q user own') (hE : ∀ e own', E e own') :
    Traced (machine cx) (AddressSteps cx) i k
      (EmailVerificationService.currentUser actor) Q E own := by
  refine traced_bind.mpr (traced_findById (fun found own' _ hseen ↦ ?_) hE)
  refine (traced_okOr ..).mpr ⟨fun user huser ↦ ?_, fun _ ↦ hE _ _⟩
  obtain ⟨hid, hat⟩ := hseen user huser
  exact hQ user own' (hid ▸ hat)

theorem traced_sendVerification {user : User} {Q : Unit → List AppEvent → Prop}
    {E : AppError → List AppEvent → Prop} (hseen : SeenAt cx user.id user.email own)
    (hQ : ∀ own', Q () own') (hE : ∀ e own', E e own') : Traced (machine cx) (AddressSteps cx) i k
      (EmailVerificationService.sendVerification cx user) Q E own :=
  traced_sendLink (fun _ ↦ rfl) (fun _ hown ↦ ⟨by simp, fun _ ↦ hseen.mono hown⟩) hQ hE

/-- A redeemed link is remembered. -/
theorem traced_redeem {purpose : TokenPurpose} {raw : String} {Q : AuthToken → List AppEvent → Prop}
    {E : AppError → List AppEvent → Prop} (hpurpose : purpose ≠ .twoFactorPending)
    (hQ : ∀ t own', Redeemed t.userId purpose t.newEmail own' → Q t own')
    (hE : ∀ e own', E e own') :
    Traced (machine cx) (AddressSteps cx) i k
      (OneTimeTokenService.redeem cx purpose raw) Q E own := by
  refine traced_bind.mpr (traced_sql (fun s ↦ addressSteps_of_effect rfl s _)
    (fun s claimed hclaimed ↦ ?_) (fun _ _ ↦ hE _ _) (hE _ _))
  refine (traced_okOr ..).mpr ⟨fun t' ht' ↦ ?_, fun _ ↦ hE _ _⟩
  subst ht'
  obtain ⟨t, hget, hredeemable, rfl⟩ := AuthTokenSql.claim_eq_some hclaimed
  have hpur : t.purpose = purpose := by
    simp only [AuthToken.isRedeemable, Bool.and_eq_true, decide_eq_true_eq] at hredeemable
    exact hredeemable.1.1
  refine hQ _ _ ⟨_, List.mem_cons_self, t, ?_, rfl, hpur, rfl⟩
  simp only [redeemedLink, if_neg hpurpose]
  exact Option.filter_eq_some_iff.mpr ⟨hget, hredeemable⟩

theorem Redeemed.mono {u : Uuid} {purpose : TokenPurpose} {newEmail : Option String}
    {own' : List AppEvent} (h : Redeemed u purpose newEmail own) (hown : own ⊆ own') :
    Redeemed u purpose newEmail own' := by
  obtain ⟨e, he, hredeemed⟩ := h
  exact ⟨e, hown he, hredeemed⟩

/-- The address is verified for an account of which the thread has redeemed a link. -/
theorem traced_markEmailVerified {u : Uuid} (purpose : TokenPurpose) {newEmail : Option String}
    {Q : Unit → List AppEvent → Prop} {E : AppError → List AppEvent → Prop}
    (hpurpose : purpose ≠ .emailChange) (hredeemed : Redeemed u purpose newEmail own)
    (hQ : ∀ own', Q () own') (hE : ∀ e own', E e own') : Traced (machine cx) (AddressSteps cx) i k
      (sql (.users (.markEmailVerified u))) Q E own :=
  traced_sql (fun _ ↦ ⟨purpose, newEmail, hpurpose, hredeemed⟩) (fun _ _ _ ↦ hQ _)
    (fun _ _ ↦ hE _ _)
    (hE _ _)

end Handlers

/-! ## All requests -/

section Requests

variable {cx : Context}

theorem delivers_addressSteps {i : ℕ} {k : Request} (a : Except AppError Response)
    (own : List AppEvent) : Delivers (AddressSteps cx) i k a own := fun _ ↦ trivial

theorem traces_resetPassword (token newPassword : String) :
    Traces (machine cx) (AddressSteps cx) (.resetPassword token newPassword) (handle cx) := by
  intro i
  have hE : ∀ (e : AppError) (own : List AppEvent),
      Delivers (AddressSteps cx) i (.resetPassword token newPassword) (.error e) own := fun _ _ ↦
    delivers_addressSteps _ _
  refine traced_bind.mpr (traced_bind.mpr (traced_redeem (by simp) (fun t own₁ hredeemed ↦ ?_) hE))
  refine traced_bind.mpr (traced_findById (fun found own₂ h₂ hfound ↦ ?_) hE)
  refine traced_bind.mpr ((traced_okOr ..).mpr ⟨fun user huser ↦ ?_, fun _ ↦ hE _ _⟩)
  obtain ⟨hid, -⟩ := hfound user (Option.filter_eq_some_iff.mp huser).1
  refine traced_bind.mpr (traced_aside (only_setPassword fun q hq ↦ ?_) (fun _ own₃ h₃ ↦ ?_) hE)
  · rcases List.mem_cons.mp hq with hq | hq
    · simp [hq]
    · simp [List.mem_singleton.mp hq]
  refine traced_bind.mpr (traced_markEmailVerified .passwordReset (by simp)
    (hid ▸ (hredeemed.mono h₂).mono h₃) (fun own₄ ↦ ?_) hE)
  refine traced_aside ?_ (fun _ _ _ ↦ delivers_addressSteps _ _) hE
  simp [OneTimeTokenService.invalidate]

theorem traces_confirmEmailChange (token : String) :
    Traces (machine cx) (AddressSteps cx) (.confirmEmailChange token) (handle cx) := by
  intro i
  have hE : ∀ (e : AppError) (own : List AppEvent),
      Delivers (AddressSteps cx) i (.confirmEmailChange token) (.error e) own := fun _ _ ↦
    delivers_addressSteps _ _
  refine traced_bind.mpr (traced_bind.mpr (traced_redeem (by simp) (fun t own₁ hredeemed ↦ ?_) hE))
  refine traced_bind.mpr ((traced_okOr ..).mpr ⟨fun newEmail hnew ↦ ?_, fun _ ↦ hE _ _⟩)
  have hchange : ∀ s own, own₁ ⊆ own → AddressSteps cx (.ran i (.confirmEmailChange token)
      (.sql (.users (.changeEmail t.userId (cx.normalizeEmail newEmail)))) s) own := by
    intro s own hown
    exact ⟨newEmail, (hnew ▸ hredeemed).mono hown, rfl⟩
  refine traced_bind.mpr (traced_bind.mpr (traced_sql (fun s ↦ hchange s _ (List.Subset.refl _))
    (fun s changed _ ↦ ?_) (fun _ _ ↦ hE _ _) (hE _ _)))
  refine traced_aside (by simp) (fun _ own₂ _ ↦ ?_) hE
  refine traced_aside ?_ (fun _ _ _ ↦ delivers_addressSteps _ _) hE
  simp [OneTimeTokenService.invalidate]

theorem traces_requestEmailChange (caller : Presented) (password newEmail : String) :
    Traces (machine cx) (AddressSteps cx) (.requestEmailChange caller password newEmail)
      (handle cx) := by
  intro i
  have hE : ∀ (e : AppError) (own : List AppEvent),
      Delivers (AddressSteps cx) i (.requestEmailChange caller password newEmail) (.error e) own :=
    fun _ _ ↦ delivers_addressSteps _ _
  refine traced_bind.mpr
    (traced_aside (only_sessionUser (by simp_all) _ _) (fun actor own₁ _ ↦ ?_) hE)
  refine traced_bind.mpr (traced_bind.mpr (traced_aside ?_ (fun user own₂ _ ↦ ?_) hE))
  · simp [EmailVerificationService.currentUser]
  refine traced_bind.mpr (traced_aside (by simp) (fun _ own₃ _ ↦ ?_) hE)
  refine traced_bind.mpr (traced_aside (by simp) (fun _ own₄ _ ↦ ?_) hE)
  refine traced_bind.mpr (traced_aside (by simp [UsersService.findByEmail]) (fun _ own₅ _ ↦ ?_) hE)
  refine traced_bind.mpr (traced_aside (by simp) (fun _ own₆ _ ↦ ?_) hE)
  rw [← Prog.bind_assoc]
  refine traced_bind.mpr
    (traced_sendLink (fun _ ↦ rfl) (fun _ _ ↦ ⟨fun _ ↦ ⟨rfl, newEmail, rfl⟩, ?_⟩)
    (fun own₇ ↦ ?_) hE)
  · intro hpurpose
    exact absurd rfl hpurpose
  · exact traced_aside (by simp) (fun _ _ _ ↦ delivers_addressSteps _ _) hE

theorem traces_forgotPassword (email : String) :
    Traces (machine cx) (AddressSteps cx) (.forgotPassword email) (handle cx) := by
  intro i
  have hE : ∀ (e : AppError) (own : List AppEvent),
      Delivers (AddressSteps cx) i (.forgotPassword email) (.error e) own := fun _ _ ↦
    delivers_addressSteps _ _
  refine traced_bind.mpr (traced_bind.mpr (traced_findByEmail (fun found own₁ _ hfound ↦ ?_) hE))
  cases found with
  | none => exact delivers_addressSteps _ _
  | some user =>
      have hseen := hfound user rfl
      by_cases hactive : user.isActive = true
      · simp only [if_pos hactive]
        refine traced_bind.mpr (traced_aside (by simp [OneTimeTokenService.issuedWithin])
          (fun recent own₂ h₂ ↦ ?_) hE)
        by_cases hmany : recent ≥ maxResetsPerHour
        · simp only [if_pos hmany]
          exact delivers_addressSteps _ _
        · simp only [if_neg hmany]
          exact traced_sendLink (fun _ ↦ rfl) (fun _ hown ↦
            ⟨by simp, fun _ ↦ (hseen.mono h₂).mono hown⟩)
            (fun _ ↦ delivers_addressSteps _ _) hE
      · simp only [if_neg hactive]
        exact delivers_addressSteps _ _

/-- A new account that is not verified. -/
theorem addressSteps_createUnverified {i : ℕ} {k : Request} {new : NewUser} {id : Uuid} {s : Server}
    {own : List AppEvent} (hnew : new.emailVerified = false) :
    AddressSteps cx (.ran i k (.sql (.users (.create id new))) s) own := by
  intro hverified
  rw [hnew] at hverified
  cases hverified

theorem traces_register (email password : String) :
    Traces (machine cx) (AddressSteps cx) (.register email password) (handle cx) := by
  intro i
  have hE : ∀ (e : AppError) (own : List AppEvent),
      Delivers (AddressSteps cx) i (.register email password) (.error e) own := fun _ _ ↦
    delivers_addressSteps _ _
  refine traced_bind.mpr (traced_bind.mpr (traced_createWithPassword
    (fun _ _ _ _ ↦ addressSteps_createUnverified rfl) (fun user own₁ hseen ↦ ?_) hE))
  refine traced_bind.mpr (traced_bindBoth.mpr ?_)
  exact traced_sendVerification hseen (fun _ ↦ delivers_addressSteps _ _) fun _ _ ↦
    delivers_addressSteps _ _

theorem traces_inviteUser (caller : Presented) (email : String) (name : Option String)
    (role : Option Role) :
    Traces (machine cx) (AddressSteps cx) (.inviteUser caller email name role) (handle cx) := by
  intro i
  have hE : ∀ (e : AppError) (own : List AppEvent),
      Delivers (AddressSteps cx) i (.inviteUser caller email name role) (.error e) own :=
    fun _ _ ↦ delivers_addressSteps _ _
  refine traced_bind.mpr
    (traced_aside (only_adminUser (by simp_all) _ _) (fun actor own₁ _ ↦ ?_) hE)
  refine traced_bind.mpr (traced_bind.mpr (traced_aside (by simp [generateToken])
    (fun _ own₂ _ ↦ ?_) hE))
  refine traced_bind.mpr (traced_createWithPassword
    (fun _ _ _ _ ↦ addressSteps_createUnverified rfl) (fun user own₃ hseen ↦ ?_) hE)
  rw [← Prog.bind_assoc]
  exact traced_bind.mpr
    (traced_sendLink (fun _ ↦ rfl) (fun _ hown ↦ ⟨by simp, fun _ ↦ hseen.mono hown⟩)
    (fun _ ↦ delivers_addressSteps _ _) hE)

theorem traces_resendVerification (caller : Presented) :
    Traces (machine cx) (AddressSteps cx) (.resendVerification caller) (handle cx) := by
  intro i
  have hE : ∀ (e : AppError) (own : List AppEvent),
      Delivers (AddressSteps cx) i (.resendVerification caller) (.error e) own := fun _ _ ↦
    delivers_addressSteps _ _
  refine traced_bind.mpr (traced_aside (only_authUser (by simp_all) _ _) (fun actor own₁ _ ↦ ?_) hE)
  refine traced_bind.mpr (traced_bind.mpr (traced_currentUser (fun user own₂ hseen ↦ ?_) hE))
  by_cases hverified : user.isEmailVerified = true
  · simp only [if_pos hverified]
    exact delivers_addressSteps _ _
  · simp only [if_neg hverified]
    exact traced_sendVerification hseen (fun _ ↦ delivers_addressSteps _ _) hE

theorem traces_verifyEmail (token : String) :
    Traces (machine cx) (AddressSteps cx) (.verifyEmail token) (handle cx) := by
  intro i
  have hE : ∀ (e : AppError) (own : List AppEvent),
      Delivers (AddressSteps cx) i (.verifyEmail token) (.error e) own := fun _ _ ↦
    delivers_addressSteps _ _
  refine traced_bind.mpr (traced_bind.mpr (traced_redeem (by simp) (fun t own₁ hredeemed ↦ ?_) hE))
  exact traced_markEmailVerified .emailVerification (by simp) hredeemed
    (fun _ ↦ delivers_addressSteps _ _) hE

theorem traces_createUser (caller : Presented) (email password : String) (name : Option String)
    (role : Option Role) : Traces (machine cx) (AddressSteps cx)
      (.createUser caller email password name role) (handle cx) := by
  intro i
  have hE : ∀ (e : AppError) (own : List AppEvent), Delivers (AddressSteps cx) i
      (.createUser caller email password name role) (.error e) own :=
    fun _ _ ↦ delivers_addressSteps _ _
  refine traced_bind.mpr
    (traced_aside (only_adminUser (by simp_all) _ _) (fun actor own₁ _ ↦ ?_) hE)
  refine traced_bind.mpr (traced_bind.mpr (traced_createWithPassword
    (fun _ _ _ _ ↦ addressSteps_createUnverified rfl) (fun user own₂ _ ↦ ?_) hE))
  exact traced_bind.mpr (traced_aside (only_recordAudit (by simp_all))
    (fun _ _ _ ↦ delivers_addressSteps _ _) hE)

theorem traces_bootstrapAdmin (email password : String) :
    Traces (machine cx) (AddressSteps cx) (.bootstrapAdmin email password) (handle cx) := by
  intro i
  have hE : ∀ (e : AppError) (own : List AppEvent),
      Delivers (AddressSteps cx) i (.bootstrapAdmin email password) (.error e) own := fun _ _ ↦
    delivers_addressSteps _ _
  refine traced_bind.mpr (traced_bind.mpr (traced_aside (by simp) (fun admins own₁ _ ↦ ?_) hE))
  by_cases hadmins : 0 < admins
  · simp only [if_pos hadmins]
    exact delivers_addressSteps _ _
  · simp only [if_neg hadmins]
    refine traced_bind.mpr
      (traced_bindBoth.mpr (traced_createWithPassword (fun id hash s own _ ↦ ?_)
      (fun _ _ _ ↦ delivers_addressSteps _ _) fun _ _ ↦ delivers_addressSteps _ _))
    exact .inr (by simp [createsBootstrapAdmin])

theorem traces_oauthCallback (provider : Provider) (query : CallbackQuery)
    (answer : Option ProviderProfile) :
    Traces (machine cx) (AddressSteps cx) (.oauthCallback provider query answer) (handle cx) := by
  let S : Statement → Prop := fun q ↦ ∀ i s own,
    AddressSteps cx (.ran i (.oauthCallback provider query answer) q s) own
  have hcallback : (OAuthService.handleCallback cx provider query (.answering answer)).Only S := by
    refine only_handleCallback (fun q hq i s own ↦ ?_) ?_
    · refine addressSteps_of_effect ?_ s own
      simp only [List.mem_cons, List.not_mem_nil, or_false] at hq
      rcases hq with hq | hq | hq | hq <;> simp [hq]
    · intro profile email hprofile hemail hvouched id name i s own _
      refine .inl ?_
      subst hprofile
      simp [createsVouched, hemail, hvouched]
  exact .of_only (S := S) (hcallback.bind fun _ ↦ trivial) (fun q hq ↦ hq) fun i a s own ↦ trivial

theorem traces_addressSteps (k : Request) :
    Traces (machine cx) (AddressSteps cx) k (handle cx) := by
  have aside {k : Request} (hk : ∀ e ∈ .none :: k.effects, e.concernsAddress = false) :
      Traces (machine cx) (AddressSteps cx) k (handle cx) :=
    .of_only (handle_only k fun q hq ↦ hq)
      (fun q hq i s own ↦ addressSteps_of_effect (hk _ hq) s own) fun i a s own ↦ trivial
  cases k with
  | createUser caller email password name role =>
      exact traces_createUser caller email password name role
  | bootstrapAdmin email password => exact traces_bootstrapAdmin email password
  | register email password => exact traces_register email password
  | forgotPassword email => exact traces_forgotPassword email
  | resetPassword token newPassword => exact traces_resetPassword token newPassword
  | inviteUser caller email name role => exact traces_inviteUser caller email name role
  | verifyEmail token => exact traces_verifyEmail token
  | resendVerification caller => exact traces_resendVerification caller
  | requestEmailChange caller password newEmail =>
      exact traces_requestEmailChange caller password newEmail
  | confirmEmailChange token => exact traces_confirmEmailChange token
  | oauthCallback provider query answer => exact traces_oauthCallback provider query answer
  | _ => exact aside (by simp)

end Requests

/-! ## All runs -/

/-- A stored link has these fields. -/
def linkStored (t : AuthToken) (s : Server) : Prop :=
  ∃ t', s.db.authTokens.get? t.tokenHash = some t' ∧ t'.userId = t.userId ∧
    t'.purpose = t.purpose ∧ t'.newEmail = t.newEmail

section Runs

variable {cx : Context} {s : Server} {c : AppConfig} {u : Uuid} {email : String}

theorem insert_of_rises_linkStored {t : AuthToken} {q : Statement} {b : Server}
    (h : Rises (machine cx) (linkStored t) q b) :
    ∃ expiresAt, q = .sql
      (.authTokens (.insert t.userId t.purpose t.tokenHash t.newEmail expiresAt)) := by
  obtain ⟨hbefore, t', hget, huser, hpurpose, hnew⟩ := h
  have unchanged : ¬b.db.authTokens.get? t.tokenHash = some t' := fun hold ↦
    hbefore ⟨t', hold, huser, hpurpose, hnew⟩
  cases q with
  | sql q =>
      cases q with
      | authTokens q =>
          cases hold : b.db.authTokens.get? t.tokenHash with
          | none =>
              obtain ⟨u, purpose, newEmail, expiresAt, rfl, rfl⟩ :=
                AuthTokenSql.get?_run_none hold hget
              obtain ⟨rfl, rfl, rfl⟩ : u = t.userId ∧ purpose = t.purpose ∧ newEmail = t.newEmail :=
                ⟨huser, hpurpose, hnew⟩
              exact ⟨expiresAt, rfl⟩
          | some t₀ =>
              refine absurd ⟨t₀, hold, ?_⟩ hbefore
              rcases AuthTokenSql.get?_run hold hget with rfl | rfl
              · exact ⟨huser, hpurpose, hnew⟩
              · exact ⟨huser, hpurpose, hnew⟩
      | _ => exact absurd hget unchanged
  | _ => exact absurd hget unchanged

theorem redeemedLink_eq_some {e : AppEvent} {t : AuthToken} (h : redeemedLink e = some t) :
    e.store.db.authTokens.get? t.tokenHash = some t := by
  unfold redeemedLink at h
  split at h
  next =>
    split at h
    · cases h
    · have hget := (Option.filter_eq_some_iff.mp h).1
      rw [Table.key_of_get? hget]
      exact hget
  next => cases h

/-- Redeemed links were stored with the fields they have. -/
theorem Reached.stored_of_redeemed (hc : Reached cx s c) (htokens : s.db.authTokens = .empty)
    {later earlier : List AppEvent} {e : AppEvent} {t : AuthToken}
    (hhist : c.world.history = later ++ e :: earlier) (ht : redeemedLink e = some t) :
    ∃ x ∈ earlier, StoresLink t.userId t.purpose t.tokenHash t.newEmail x := by
  obtain ⟨c', hc', hworld⟩ := hc.past hhist
  have hstart : ¬linkStored t s := by
    rintro ⟨t', hget, -⟩
    simp [htokens] at hget
  have hnow : linkStored t c'.world.store := by
    rw [hworld]
    exact ⟨t, redeemedLink_eq_some ht, rfl, rfl, rfl⟩
  obtain ⟨mid, x, older, hsplit, hrise, -⟩ := hc'.rises_of_live (linkStored t) (fun _ _ ↦ Iff.rfl)
    hstart hnow
  have hin : x ∈ earlier := by
    have hsame : earlier = _ := (congrArg World.history hworld).symm.trans hsplit
    simp [hsame]
  refine ⟨x, hin, ?_⟩
  cases x with
  | ran i k q b => exact insert_of_rises_linkStored hrise
  | answered => exact hrise.elim

theorem Reached.addressSteps (hc : Reached cx s c) {later earlier : List AppEvent} {e : AppEvent}
    (hhist : c.world.history = later ++ e :: earlier) :
    AddressSteps cx e (ownEvents e.tid earlier) :=
  Along.of_append (P := AlongOwn (AddressSteps cx))
    (hhist ▸ hc.traces fun k _ ↦ traces_addressSteps k)

/-- A link is mailed to the new address of an email change, and otherwise to an address the
account had before. -/
theorem Reached.address_of_sentLink (hc : Reached cx s c)
    (hdistinct : ∀ hash, cx.DistinctDraws (.link hash) c.world.store.draws)
    {later earlier : List AppEvent} {sent : AppEvent} {t : AuthToken} {x : AppEvent}
    (hhist : c.world.history = later ++ sent :: earlier)
    (hsent : sentLink cx sent = some (email, t.tokenHash)) (hx : x ∈ c.world.history)
    (hstores : StoresLink t.userId t.purpose t.tokenHash t.newEmail x) :
    (t.purpose = .emailChange → t.newEmail = some email ∧ ∃ typed,
      email = cx.normalizeEmail typed) ∧
      (t.purpose ≠ .emailChange → SeenAt cx t.userId email earlier) := by
  have hstored : StoredFor cx email t.tokenHash (ownEvents sent.tid earlier) := by
    have hstep := hc.addressSteps hhist
    unfold sentLink at hsent
    split at hsent
    next m b =>
      obtain ⟨⟨recipient, raw⟩, hlink, heq⟩ := Option.map_eq_some_iff.mp hsent
      obtain ⟨rfl, hhash⟩ := Prod.mk.inj heq
      exact hhash ▸ hstep recipient raw hlink
    next => cases hsent
  obtain ⟨u', purpose', newEmail', ⟨y, hy, hstores'⟩, hchange, hother⟩ := hstored
  have hyin : y ∈ c.world.history := by
    rw [hhist]
    exact List.mem_append_right _ (List.mem_cons_of_mem _ (mem_ownEvents.mp hy).1)
  have mints {u : Uuid} {purpose : TokenPurpose} {newEmail : Option String} {e : AppEvent}
      (h : StoresLink u purpose t.tokenHash newEmail e) :
      e.Mints Statement.Mints (.link t.tokenHash) := by
    cases e with
    | ran i k q b =>
        obtain ⟨expiresAt, rfl⟩ := h
        exact rfl
    | answered => exact h
  obtain rfl : x = y := (hc.minted_once (hdistinct t.tokenHash)).eq hx hyin (mints hstores)
    (mints hstores')
  obtain ⟨rfl, rfl, rfl⟩ : t.userId = u' ∧ t.purpose = purpose' ∧ t.newEmail = newEmail' := by
    cases x with
    | ran i k q b =>
        obtain ⟨expiresAt, rfl⟩ := hstores
        obtain ⟨expiresAt', heq⟩ := hstores'
        simp only [Statement.sql.injEq, Sql.authTokens.injEq, AuthTokenSql.insert.injEq] at heq
        exact ⟨heq.1, heq.2.1, heq.2.2.2.1⟩
    | answered => exact hstores.elim
  exact ⟨hchange, fun hpurpose ↦ (hother hpurpose).mono fun e he ↦ (mem_ownEvents.mp he).1⟩

/-- A redeemed link was mailed to the new address of an email change, and otherwise to an address
the account had before. -/
theorem Reached.mailed_of_redeemed (hc : Reached cx s c) (htokens : s.db.authTokens = .empty)
    (hdistinct : ∀ hash, cx.DistinctDraws (.link hash) c.world.store.draws)
    (hfollows : Along (fun e earlier ↦ followsMail cx e earlier = true) c.world.history)
    {later earlier : List AppEvent} {redeemed : AppEvent} {t : AuthToken}
    (hhist : c.world.history = later ++ redeemed :: earlier)
    (ht : redeemedLink redeemed = some t) :
    ∃ sent ∈ earlier, ∃ email, sentLink cx sent = some (email, t.tokenHash) ∧
      (t.purpose = .emailChange →
        t.newEmail = some email ∧ ∃ typed, email = cx.normalizeEmail typed) ∧
      (t.purpose ≠ .emailChange → SeenAt cx t.userId email earlier) := by
  have hmailed : followsMail cx redeemed earlier = true := Along.of_append (hhist ▸ hfollows)
  simp only [followsMail, ht, Option.all_some, List.any_eq_true, Option.any_eq_true,
    decide_eq_true_eq] at hmailed
  obtain ⟨sent, hsent, ⟨email, hash⟩, hlink, rfl⟩ := hmailed
  obtain ⟨x, hx, hstores⟩ := hc.stored_of_redeemed htokens hhist ht
  have hxin : x ∈ c.world.history := by simp [hhist, hx]
  obtain ⟨mid, older, rfl⟩ := List.append_of_mem hsent
  have hsplit : c.world.history = (later ++ redeemed :: mid) ++ sent :: older := by simp [hhist]
  obtain ⟨hchange, hother⟩ := hc.address_of_sentLink hdistinct hsplit hlink hxin hstores
  refine ⟨sent, hsent, email, hlink, hchange, fun hpurpose ↦ ?_⟩
  exact (hother hpurpose).mono fun e he ↦ by simp [he]

/-- An account that is not verified has every address it was ever seen with. -/
theorem Reached.verifiedOrAt_of_seenAt (hc : Reached cx s c)
    (hseen : SeenAt cx u email c.world.history) :
    userIs u (User.verifiedOrAt email) c.world.store := by
  obtain ⟨e, he, hleaves⟩ := hseen
  obtain ⟨later, earlier, hhist⟩ := List.append_of_mem he
  refine hc.live_of_made (userIs u (User.verifiedOrAt email)) (fun _ _ ↦ Iff.rfl)
    (userIs_exec fun now users row q ↦ verifiedOrAt_onRow now users row q) hhist ?_
  cases e with
  | ran i k q b =>
      obtain ⟨row, hrow, hemail⟩ := hleaves
      exact ⟨row, hrow, .inr hemail⟩
  | answered => exact hleaves

theorem verified_address_proven (hc : Reached cx s c) (husers : s.db.users = .empty)
    (htokens : s.db.authTokens = .empty)
    (hnorm : ∀ raw, cx.normalizeEmail (cx.normalizeEmail raw) = cx.normalizeEmail raw)
    (hdistinct : ∀ hash, cx.DistinctDraws (.link hash) c.world.store.draws)
    (hfollows : Along (fun e earlier ↦ followsMail cx e earlier = true) c.world.history)
    {row : User} (hrow : c.world.store.db.users.get? u = some row)
    (hverified : row.isEmailVerified = true) : ControlProven cx u row.email c.world.history := by
  have hstart : ¬userIs u (User.verifiedAs row.email) s := by
    rintro ⟨row', hget, -⟩
    simp [husers] at hget
  obtain ⟨later, x, earlier, hhist, hrise, -⟩ :=
    hc.rises_of_live (userIs u (User.verifiedAs row.email)) (fun _ _ ↦ Iff.rfl) hstart
      ⟨row, hrow, hverified, rfl⟩
  have hsteps := hc.addressSteps hhist
  have split {r : AppEvent} (hr : r ∈ ownEvents x.tid earlier) : ∃ mid older,
      earlier = mid ++ r :: older ∧ c.world.history = (later ++ x :: mid) ++ r :: older := by
    obtain ⟨mid, older, rfl⟩ := List.append_of_mem (mem_ownEvents.mp hr).1
    exact ⟨mid, older, rfl, by simp [hhist]⟩
  cases x with
  | answered => exact hrise.elim
  | ran i k q b =>
      rcases verifiedAs_rises hrise with ⟨new, rfl, hnew, hemail⟩ |
        ⟨rfl, row', hget, hunverified, hat⟩ |
        rfl
      · have hin : .ran i k (.sql (.users (.create u new))) b ∈ c.world.history := by simp [hhist]
        rcases hsteps hnew with hcreates | hcreates
        · exact .provider _ hin hrise (hemail ▸ hcreates)
        · exact .bootstrap _ hin hrise (hemail ▸ hcreates)
      · -- still unverified, so the address the link was mailed to is the one it verifies
        obtain ⟨purpose, newEmail, hpurpose, r, hr, t, ht, rfl, rfl, -⟩ := hsteps
        obtain ⟨mid, older, hsplit, hlong⟩ := split hr
        obtain ⟨sent, hsent, email, hlink, -, hseen⟩ :=
          hc.mailed_of_redeemed htokens hdistinct hfollows hlong ht
        obtain ⟨c', hc', hworld⟩ := hc.past hhist
        have hbefore : SeenAt cx t.userId email c'.world.history := by
          rw [hworld, hsplit]
          exact (hseen hpurpose).mono fun e he ↦ by simp [he]
        obtain ⟨row'', hget', hkept⟩ := Reached.verifiedOrAt_of_seenAt hc' hbefore
        obtain rfl : row' = row'' := by
          simpa [hworld, hget] using hget'
        have hsame : row'.email = email := by
          rcases hkept with hkept | hkept
          · simp [hunverified] at hkept
          · exact hkept
        refine .link _ r older sent t hlong ht rfl hsent ?_
        rw [hlink, ← hsame, hat]
      · obtain ⟨newEmail, ⟨r, hr, t, ht, rfl, hpurpose, hnew⟩, hemail⟩ := hsteps
        obtain ⟨mid, older, hsplit, hlong⟩ := split hr
        obtain ⟨sent, hsent, email, hlink, hchange, -⟩ :=
          hc.mailed_of_redeemed htokens hdistinct hfollows hlong ht
        obtain ⟨hto, typed, htyped⟩ := hchange hpurpose
        obtain rfl : newEmail = email := Option.some.inj (hnew.symm.trans hto)
        have hsame : row.email = newEmail := by
          calc row.email = cx.normalizeEmail (cx.normalizeEmail typed) := by rw [hemail, htyped]
            _ = newEmail := by rw [hnorm, htyped]
        refine .link _ r older sent t hlong ht rfl hsent ?_
        rw [hlink, hsame]

end Runs

theorem verified_address_proven_for_new_account :
    ∃ c, Reached .sample (Sample.server .empty) c ∧ ∃ row,
      c.world.store.db.users.get? 1001 = some row ∧ row.isEmailVerified = true ∧
        ControlProven .sample 1001 row.email c.world.history := by
  let test : AppConfig → Bool := fun c ↦ decide (c.world.store.draws = 3) &&
    (c.world.store.db.users.get? 1001).any User.isEmailVerified &&
      decide (Along (fun e earlier ↦ followsMail .sample e earlier = true) c.world.history)
  obtain ⟨c, hc, htest⟩ : ∃ c, Reached .sample (Sample.server .empty) c ∧ test c = true :=
    Reachable.of_schedule (Sample.alone 0 (.register "ada@example.com" "correct-horse") 8 ++
      Sample.alone 1 (.verifyEmail "token2-with-some-more-characters-to-it") 2) test (by decide)
      (by decide)
  simp only [test, Bool.and_eq_true, decide_eq_true_eq, Option.any_eq_true] at htest
  obtain ⟨⟨hdraws, row, hrow, hverified⟩, hfollows⟩ := htest
  refine ⟨c, hc, row, hrow, hverified, verified_address_proven hc rfl rfl trim_trim ?_ hfollows hrow
    hverified⟩
  have htokens : ∀ m < 3, ∀ n < 3, Context.sample.sha256 (Context.sample.randomToken m) =
      Context.sample.sha256 (Context.sample.randomToken n) → m = n := by decide
  intro hash m n hm hn hsourcem hsourcen
  rw [hdraws] at hm hn
  exact htokens m hm n hn (hsourcem.trans hsourcen.symm)

end ApiStarter
