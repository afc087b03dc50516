import ApiStarter.AccessControl
import ApiStarter.PasswordChanges

/-!
# Stored passwords

A password is stored by registering, by an administrator who creates an account
or invites its owner, by the bootstrap, by a reset and by a change.  Each of them
asks the policy first, with the address and the name of the account as hints, and
hashes under a salt of its own.  So whatever runs at the same time, every hash in
the database that was not there at the start is one of a password that passed.
-/

namespace ApiStarter

open Interleave Interleave.Prog Relational

/-- The password that the request wants to store. -/
def Request.newPassword? : Request → Option String
  | .createUser _ _ password .. | .bootstrapAdmin _ password | .register _ password
  | .resetPassword _ password | .changePassword _ _ password => some password
  | _ => none

def Request.invites : Request → Bool
  | .inviteUser .. => true
  | _ => false

/-- The policy has nothing against the password. -/
def PolicyAccepts (cx : Context) (password email : String) (displayName : Option String) : Prop :=
  cx.tooWeak password (email :: displayName.toList) = none ∧
    (cx.checkPasswordBreaches = true → cx.appearedInBreach password = false)

/-- The password was typed in, or it is the token that an invitation draws for it. -/
def Supplied (cx : Context) (k : Request) (password : String) (own : List AppEvent) : Prop :=
  k.newPassword? = some password ∨
    k.invites = true ∧ ∃ i s, .ran i k .draw s ∈ own ∧ password = cx.randomToken s.draws

/-- `hash` is argon2's for the password, under a salt the request drew. -/
def HashedFrom (cx : Context) (k : Request) (password hash : String) (own : List AppEvent) :
    Prop :=
  Supplied cx k password own ∧
    ∃ i s, .ran i k .draw s ∈ own ∧ cx.argon2 (cx.randomSalt s.draws) password = some hash

/-- Only passwords that the policy accepts are stored, judged with the address and the name that
the account is created with or was read with. -/
def StoresAccepted (cx : Context) : AppEvent → List AppEvent → Prop
  | .ran _ k (.sql (.users (.create _ new))) _, own =>
      new.passwordHash = "!no-password" ∧ new.passwordSet = false ∨
        new.passwordSet = true ∧ ∃ password, HashedFrom cx k password new.passwordHash own ∧
          PolicyAccepts cx password new.email new.displayName
  | .ran _ k (.sql (.users (.setPasswordHash id hash))) _, own =>
      ∃ password, HashedFrom cx k password hash own ∧ Seen (userIs id fun row ↦
        row.isLive = true ∧ PolicyAccepts cx password row.email row.displayName) own
  | _, _ => True

/-- Statements that store no password. -/
def Statement.StoresNone (q : Statement) : Prop :=
  q.effect ≠ .createUser ∧ q.effect ≠ .setPassword

/-! ## One request -/

section Walk

variable {cx : Context} {i : ℕ} {k : Request} {own : List AppEvent} {s : Server}

theorem Statement.StoresNone.storesAccepted {q : Statement} (h : q.StoresNone) :
    StoresAccepted cx (.ran i k q s) own := by
  unfold StoresAccepted
  split
  next heq =>
    cases heq
    exact absurd rfl h.1
  next heq =>
    cases heq
    exact absurd rfl h.2
  next => trivial

theorem Supplied.mono {password : String} {own' : List AppEvent} (h : Supplied cx k password own)
    (hown : own ⊆ own') : Supplied cx k password own' := by
  refine h.imp id fun ⟨hinvites, j, s, hdraw, hpassword⟩ ↦ ?_
  exact ⟨hinvites, j, s, hown hdraw, hpassword⟩

variable {α : Type} {p : Req α}

/-- A part that stores no password. -/
theorem traced_stores_none {Q : α → List AppEvent → Prop}
    (hp : p.Only Statement.StoresNone) (hQ : ∀ a own', own ⊆ own' → Q a own') :
    Traced (machine cx) (StoresAccepted cx) i k p Q (fun _ _ ↦ True) own :=
  traced_of_quiet hp (returns_true _) (fun _ hq _ _ ↦ hq.storesAccepted)
    (fun a own' _ ↦ hQ a own') fun _ _ _ ↦ trivial

/-- What passes the policy is accepted by it. -/
theorem traced_rejectPasswordIfPolicyViolation {password email : String} {name : Option String}
    {Q : Unit → List AppEvent → Prop} (hQ : PolicyAccepts cx password email name → Q () own) :
    Traced (machine cx) (StoresAccepted cx) i k
      (UsersService.rejectPasswordIfPolicyViolation cx password email name) Q
      (fun _ _ ↦ True) own := by
  unfold UsersService.rejectPasswordIfPolicyViolation
  cases hweak : cx.tooWeak password (email :: name.toList) with
  | some feedback => trivial
  | none =>
      refine (traced_ensure ..).mpr ⟨fun hbreach ↦ hQ ⟨hweak, fun hcheck ↦ ?_⟩, fun _ ↦ trivial⟩
      cases happeared : cx.appearedInBreach password with
      | false => rfl
      | true => exact absurd ⟨hcheck, happeared⟩ hbreach

theorem traced_hashBlocking {password : String} (hsupplied : Supplied cx k password own)
    {Q : String → List AppEvent → Prop}
    (hQ : ∀ hash own', own ⊆ own' → HashedFrom cx k password hash own' → Q hash own') :
    Traced (machine cx) (StoresAccepted cx) i k (hashBlocking cx password) Q
      (fun _ _ ↦ True) own := by
  apply traced_bind.mpr
  refine (traced_ask _).mpr ⟨fun s ↦ ⟨trivial, ?_⟩, by rintro _ ⟨⟩⟩
  refine (traced_okOr ..).mpr ⟨fun hash hhash ↦ ?_, fun _ ↦ trivial⟩
  have hown : own ⊆ .ran i k .draw s :: own := List.subset_cons_self _ _
  exact hQ hash _ hown ⟨hsupplied.mono hown, i, s, List.mem_cons_self, hhash⟩

theorem traced_createWithPassword_accepted {email password : String} {name : Option String}
    {role : Role} {verified : Bool} (hsupplied : Supplied cx k password own)
    {Q : User → List AppEvent → Prop} (hQ : ∀ user own', Q user own') :
    Traced (machine cx) (StoresAccepted cx) i k
      (UsersService.createWithPassword cx email password name role verified) Q
      (fun _ _ ↦ True) own := by
  apply traced_bind.mpr
  apply traced_rejectPasswordIfPolicyViolation
  intro haccepts
  apply traced_bind.mpr
  apply traced_hashBlocking hsupplied
  intro hash own₁ _ hhashed
  apply traced_bind.mpr
  refine (traced_ask _).mpr ⟨fun s ↦ ⟨trivial, ?_⟩, by rintro _ ⟨⟩⟩
  have hown : own₁ ⊆ .ran i k .draw s :: own₁ := List.subset_cons_self _ _
  obtain ⟨hfrom, j, t, hdraw, hargon⟩ := hhashed
  apply traced_bind.mpr
  refine traced_sql (fun _ ↦ .inr ⟨rfl, password, ⟨hfrom.mono hown, j, t, hown hdraw, hargon⟩,
    haccepts⟩) (fun _ created _ ↦ ?_) (fun _ _ ↦ trivial) trivial
  cases created with
  | error e => trivial
  | ok user => exact hQ _ _

theorem traced_setPassword_accepted {id : Uuid} {password : String}
    (hsupplied : Supplied cx k password own) {Q : Unit → List AppEvent → Prop}
    (hQ : ∀ own', Q () own') :
    Traced (machine cx) (StoresAccepted cx) i k (UsersService.setPassword cx id password) Q
      (fun _ _ ↦ True) own := by
  apply traced_bind.mpr
  apply traced_bind.mpr
  refine traced_sql (fun _ ↦ trivial) (fun s found hfound ↦ ?_) (fun _ _ ↦ trivial) trivial
  refine (traced_okOr ..).mpr ⟨fun account haccount ↦ ?_, fun _ ↦ trivial⟩
  obtain ⟨hget, hid, hlive⟩ := find?_liveId_eq_some ((Option.some.inj hfound).trans haccount)
  apply traced_bind.mpr
  apply traced_rejectPasswordIfPolicyViolation
  intro haccepts
  apply traced_bind.mpr
  apply traced_hashBlocking (hsupplied.mono (List.subset_cons_self _ _))
  intro hash own₁ hown hhashed
  have hseen : Seen (userIs id fun row ↦ row.isLive = true ∧
      PolicyAccepts cx password row.email row.displayName) own₁ :=
    ⟨_, hown List.mem_cons_self, account, hget, hlive, haccepts⟩
  exact traced_sql (fun _ ↦ ⟨password, hhashed, hseen⟩) (fun _ _ _ ↦ hQ _) (fun _ _ ↦ trivial)
    trivial

end Walk

/-! ## All requests -/

section Handlers

variable {cx : Context} {i : ℕ} {k : Request} {own : List AppEvent}

/-- From `own` on, only accepted passwords are stored. -/
def Accepts (cx : Context) (i : ℕ) (k : Request) (own : List AppEvent) {α : Type} (p : Req α) :
    Prop :=
  Traced (machine cx) (StoresAccepted cx) i k p (fun _ _ ↦ True) (fun _ _ ↦ True) own

theorem accepts_none {α : Type} {p : Req α} (hp : p.Only Statement.StoresNone) :
    Accepts cx i k own p := traced_stores_none hp fun _ _ _ ↦ trivial

theorem storesNone_of_mem {l : List Effect} (hcreate : Effect.createUser ∉ l)
    (hset : Effect.setPassword ∉ l) :
    ∀ q : Statement, q.effect ∈ l → q.StoresNone := fun _ hq ↦
  ⟨fun h ↦ hcreate (h ▸ hq), fun h ↦ hset (h ▸ hq)⟩

theorem storesNone_of_none (q : Statement) (hq : q.effect = .none) : q.StoresNone := by
  simp [Statement.StoresNone, hq]

theorem accepts_create {actor : AuthUser} {email password : String} {name : Option String}
    {role : Option Role} (h : k.newPassword? = some password) :
    Accepts cx i k own (UsersService.create cx actor email password name role) := by
  apply traced_bind.mpr
  apply traced_createWithPassword_accepted (.inl h)
  intro user own'
  apply accepts_none
  exact .bind (only_recordAudit storesNone_of_none) fun _ ↦ trivial

theorem accepts_bootstrap {email password : String} (h : k.newPassword? = some password) :
    Accepts cx i k own (UsersService.ensureBootstrapAdmin cx email password) := by
  apply traced_bind.mpr
  refine traced_sql (fun _ ↦ trivial) (fun s admins _ ↦ ?_) (fun _ _ ↦ trivial) trivial
  split
  · trivial
  · refine traced_bind.mpr (traced_bindBoth.mpr ?_)
    exact (traced_createWithPassword_accepted (.inl h) fun _ _ ↦ trivial).mono
      (fun _ _ _ ↦ trivial) fun _ _ _ ↦ trivial

theorem accepts_register {email password : String} (h : k.newPassword? = some password) :
    Accepts cx i k own (SessionService.register cx email password) := by
  apply traced_bind.mpr
  apply traced_createWithPassword_accepted (.inl h)
  intro user own'
  apply accepts_none
  refine .bind (.attempt (only_sendVerification ?_)) fun _ ↦ trivial
  exact storesNone_of_mem (by simp) (by simp)

theorem accepts_invite {email : String} {name : Option String} {role : Option Role}
    (h : k.invites = true) :
    Accepts cx i k own (PasswordResetService.invite cx email name role) := by
  apply traced_bind.mpr
  apply traced_bind.mpr
  refine (traced_ask _).mpr ⟨fun s ↦ ⟨trivial, ?_⟩, by rintro _ ⟨⟩⟩
  have hsupplied : Supplied cx k (cx.randomToken s.draws) (.ran i k .draw s :: own) :=
    .inr ⟨h, i, s, List.mem_cons_self, rfl⟩
  apply traced_bind.mpr
  apply traced_createWithPassword_accepted hsupplied
  intro user own'
  apply accepts_none
  have hother := storesNone_of_mem (l := [.mailLink]) (by simp) (by simp)
  refine .bind (only_issue (storesNone_of_mem (by simp) (by simp))) fun _ ↦ ?_
  simp [hother]

theorem accepts_reset {token newPassword : String} (h : k.newPassword? = some newPassword) :
    Accepts cx i k own (PasswordResetService.reset cx token newPassword) := by
  have hother := storesNone_of_mem (l := [.claimToken .passwordReset, .markVerified,
    .retireTokens .passwordReset]) (by simp) (by simp)
  apply traced_bind.mpr
  apply traced_stores_none (by simp [OneTimeTokenService.redeem, hother])
  intro t own₁ h₁
  apply traced_bind.mpr
  apply traced_stores_none (only_sql.mpr (storesNone_of_none _ rfl))
  intro found own₂ h₂
  refine traced_bind.mpr ((traced_okOr ..).mpr ⟨fun user _ ↦ ?_, fun _ ↦ trivial⟩)
  apply traced_bind.mpr
  apply traced_setPassword_accepted (.inl h)
  intro own₃
  apply accepts_none
  simp [OneTimeTokenService.invalidate, hother, storesNone_of_none]

theorem accepts_change {actor : AuthUser} {current new : String}
    (h : k.newPassword? = some new) :
    Accepts cx i k own (PasswordResetService.change cx actor current new) := by
  apply traced_bind.mpr
  apply traced_stores_none (by simp [EmailVerificationService.currentUser, storesNone_of_none])
  intro user own₁ h₁
  refine traced_bind.mpr ((traced_ensure ..).mpr ⟨fun _ ↦ ?_, fun _ ↦ trivial⟩)
  apply traced_bind.mpr
  apply traced_setPassword_accepted (.inl h)
  intro own₂
  apply accepts_none
  simp [storesNone_of_none]

theorem Accepts.andThen {α β : Type} {p : Req α} {f : α → β} (h : Accepts cx i k own p) :
    Accepts cx i k own (do let a ← p; pure (f a)) :=
  traced_bind.mpr (h.mono (fun _ _ _ ↦ trivial) fun _ _ _ ↦ trivial)

theorem accepts_handle (k : Request) : Accepts cx i k [] (handle cx k) := by
  have admin {caller : Presented} {f : AuthUser → Req Response}
      (hf : ∀ actor own, Accepts cx i k own (f actor)) :
      Accepts cx i k [] (do let actor ← adminUser cx caller false; f actor) :=
    traced_bind.mpr (traced_stores_none (only_adminUser storesNone_of_none _ _) fun actor own _ ↦
      hf actor own)
  have session {caller : Presented} {f : AuthUser → Req Response}
      (hf : ∀ actor own, Accepts cx i k own (f actor)) :
      Accepts cx i k [] (do let actor ← sessionUser cx caller false; f actor) :=
    traced_bind.mpr (traced_stores_none (only_sessionUser storesNone_of_none _ _) fun actor own _ ↦
      hf actor own)
  cases k with
  | createUser => exact admin fun _ _ ↦ (accepts_create rfl).andThen
  | bootstrapAdmin => exact (accepts_bootstrap rfl).andThen
  | register => exact (accepts_register rfl).andThen
  | inviteUser => exact admin fun _ _ ↦ (accepts_invite rfl).andThen
  | resetPassword => exact (accepts_reset rfl).andThen
  | changePassword => exact session fun _ _ ↦ (accepts_change rfl).andThen
  | oauthCallback provider query answer =>
      let S : Statement → Prop := fun q ↦
        ∀ s own, StoresAccepted cx (.ran i (.oauthCallback provider query answer) q s) own
      have hcallback :
          (OAuthService.handleCallback cx provider query (.answering answer)).Only S := by
        refine only_handleCallback (fun q hq s own ↦ ?_) ?_
        · exact (storesNone_of_mem (by simp) (by simp) q hq).storesAccepted
        · exact fun profile email _ _ _ id name s own ↦ .inl ⟨rfl, rfl⟩
      exact .andThen (traced_of_quiet hcallback (returns_true _) (fun q hq ↦ hq)
        (fun _ _ _ _ ↦ trivial) fun _ _ _ ↦ trivial)
  | _ => exact accepts_none (handle_only _ (storesNone_of_mem (by simp) (by simp)))

theorem traces_storesAccepted (cx : Context) (k : Request) :
    Traces (machine cx) (StoresAccepted cx) k (handle cx) := fun _ ↦
  (accepts_handle k).mono (fun _ _ _ _ ↦ trivial) fun _ _ _ _ ↦ trivial

end Handlers

/-! ## One account -/

/-- The account `u` is given the password hash `hash`. -/
def GivesPassword (u : Uuid) (hash : String) (isSet : Bool) : AppEvent → Prop
  | .ran _ _ (.sql (.users (.create id new))) b =>
      id = u ∧ b.db.users.get? u = none ∧ new.passwordHash = hash ∧ new.passwordSet = isSet
  | .ran _ _ (.sql (.users (.setPasswordHash id hash'))) b =>
      id = u ∧ userIs u (fun row ↦ row.isLive = true) b ∧ hash' = hash ∧ isSet = true
  | _ => False

section Account

variable {cx : Context} {u : Uuid} {hash : String} {isSet : Bool} {s : Server} {q : Statement}

theorem UsersSql.passwordSet_onRow (now : Time) (users : Table User.id) (row : User) (q : UsersSql)
    (hq : ∀ hash, q = .setPasswordHash row.id hash → row.isLive = false) :
    (q.onRow now users row).passwordHash = row.passwordHash ∧
      (q.onRow now users row).passwordSet = row.passwordSet := by
  cases q with
  | setPasswordHash id hash =>
      have hmiss : liveId id row = false := by
        by_cases hid : row.id = id
        · subst hid
          simp [liveId, hq hash rfl]
        · simp [liveId, hid]
      simp [onRow, hmiss]
  | _ =>
      simp only [onRow]
      repeat' split
      all_goals simp [UserPatch.apply, User.markDeleted, User.withFailedLogin]

/-- An account that is there is only given a password by one that is set while it is live. -/
theorem not_givesPassword {row : User} {i : ℕ} {k : Request} (hrow : s.db.users.get? u = some row)
    (hq : ∀ hash, q = .sql (.users (.setPasswordHash u hash)) → row.isLive = false) :
    ¬GivesPassword u hash isSet (.ran i k q s) := by
  unfold GivesPassword
  split
  next heq =>
    cases heq
    rintro ⟨-, hnone, -⟩
    simp [hrow] at hnone
  next heq =>
    cases heq
    rintro ⟨rfl, ⟨row', hrow', hlive⟩, -⟩
    obtain rfl : row = row' := Option.some.inj (hrow.symm.trans hrow')
    simp [hq _ rfl] at hlive
  next => exact id

/-- A password hash that a statement leaves was there before, or the statement gave it. -/
theorem password_exec (i : ℕ) (k : Request) {row : User}
    (h : ((machine cx).exec q s).2.db.users.get? u = some row) :
    GivesPassword u row.passwordHash row.passwordSet (.ran i k q s) ∨
      (∃ old, s.db.users.get? u = some old ∧ old.passwordHash = row.passwordHash ∧
        old.passwordSet = row.passwordSet) ∧
      ∀ hash isSet, ¬GivesPassword u hash isSet (.ran i k q s) := by
  by_cases husers : ∃ q', q = .sql (.users q')
  · obtain ⟨q, rfl⟩ := husers
    cases hold : s.db.users.get? u with
    | none =>
        obtain ⟨new, rfl, rfl⟩ := UsersSql.get?_run_none hold h
        exact .inl ⟨rfl, hold, rfl, rfl⟩
    | some old =>
        obtain rfl : q.onRow s.now s.db.users old = row :=
          Option.some.inj ((UsersSql.get?_run hold q).symm.trans h)
        have hid : old.id = u := Table.key_of_get? hold
        by_cases hset : ∃ hash, q = .setPasswordHash u hash ∧ old.isLive = true
        · obtain ⟨hash, rfl, hlive⟩ := hset
          refine .inl ⟨rfl, ⟨old, hold, hlive⟩, ?_⟩
          simp [UsersSql.onRow, liveId, hid, hlive]
        · have hdead : ∀ hash, q = .setPasswordHash old.id hash → old.isLive = false := by
            intro hash hq
            rw [hid] at hq
            exact Bool.eq_false_iff.mpr fun hlive ↦ hset ⟨hash, hq, hlive⟩
          obtain ⟨hsame, hflag⟩ := UsersSql.passwordSet_onRow s.now s.db.users old q hdead
          refine .inr ⟨⟨old, rfl, hsame.symm, hflag.symm⟩, fun hash isSet ↦ ?_⟩
          apply not_givesPassword hold
          rintro hash ⟨⟩
          exact hdead hash (hid ▸ rfl)
  · have hkept : ((machine cx).exec q s).2.db.users = s.db.users := by
      cases q with
      | sql q =>
          cases q with
          | users q => exact absurd ⟨q, rfl⟩ husers
          | _ => rfl
      | _ => rfl
    rw [hkept] at h
    refine .inr ⟨⟨row, h, rfl, rfl⟩, fun hash isSet ↦ not_givesPassword h ?_⟩
    rintro hash rfl
    exact absurd ⟨_, rfl⟩ husers

end Account

/-! ## All runs -/

/-- Where the password of the account comes from: it is the one of the start, or an event gave
it that no other followed. -/
def PasswordOrigin (u : Uuid) (start : Server) (history : List AppEvent) (row : User) : Prop :=
  ((∃ old, start.db.users.get? u = some old ∧ old.passwordHash = row.passwordHash ∧
      old.passwordSet = row.passwordSet) ∧
        ∀ x ∈ history, ∀ hash isSet, ¬GivesPassword u hash isSet x) ∨
    ∃ later e earlier, history = later ++ e :: earlier ∧
      GivesPassword u row.passwordHash row.passwordSet e ∧
        ∀ x ∈ later, ∀ hash isSet, ¬GivesPassword u hash isSet x

section Runs

variable {cx : Context} {s : Server} {c : AppConfig} {u : Uuid}

theorem PasswordOrigin.cons {history : List AppEvent} {old row : User} {e : AppEvent}
    (h : PasswordOrigin u s history old) (hhash : old.passwordHash = row.passwordHash)
    (hset : old.passwordSet = row.passwordSet)
    (he : ∀ hash isSet, ¬GivesPassword u hash isSet e) :
    PasswordOrigin u s (e :: history) row := by
  rcases h with ⟨⟨first, hfirst, hsame⟩, hnone⟩ | ⟨later, x, earlier, rfl, hgives, hlast⟩
  · refine .inl ⟨⟨first, hfirst, hhash ▸ hset ▸ hsame⟩, fun x hx ↦ ?_⟩
    rcases List.mem_cons.mp hx with rfl | hx
    · exact he
    · exact hnone x hx
  · refine .inr ⟨e :: later, x, earlier, rfl, hhash ▸ hset ▸ hgives, fun y hy ↦ ?_⟩
    rcases List.mem_cons.mp hy with rfl | hy
    · exact he
    · exact hlast y hy

theorem Reached.passwordOrigin (hc : Reached cx s c) :
    ∀ row, c.world.store.db.users.get? u = some row →
      PasswordOrigin u s c.world.history row := by
  refine hc.world_induction (P := fun W ↦ ∀ row, W.store.db.users.get? u = some row →
    PasswordOrigin u s W.history row) ?_ ?_ ?_ ?_
  · exact fun row hrow ↦ .inl ⟨⟨row, hrow, rfl, rfl⟩, by simp⟩
  · intro i k q W ih row hrow
    rcases password_exec i k hrow with hgives | ⟨⟨old, hold, hhash, hset⟩, hnot⟩
    · exact .inr ⟨[], _, _, rfl, hgives, by simp⟩
    · exact (ih old hold).cons hhash hset hnot
  · exact fun i k a W ih row hrow ↦ (ih row hrow).cons rfl rfl fun _ _ ↦ id
  · exact fun x W ih row hrow ↦ ih row hrow

/-- Whatever requests are in flight, every password hash is one of the start or was given by an
event that no other followed, and what an event stores is a password that the policy accepted. -/
theorem passwords_accepted (hc : Reached cx s c) :
    (∀ u row, c.world.store.db.users.get? u = some row →
      PasswordOrigin u s c.world.history row) ∧
        ∀ later e earlier, c.world.history = later ++ e :: earlier →
          StoresAccepted cx e (ownEvents e.tid earlier) := by
  refine ⟨fun u row hrow ↦ hc.passwordOrigin row hrow, fun later e earlier hhist ↦ ?_⟩
  exact Along.of_append (P := AlongOwn (StoresAccepted cx))
    (hhist ▸ hc.traces fun k _ ↦ traces_storesAccepted cx k)

end Runs

/-- Ada changes her password: the hash in the database is that of the new one. -/
theorem passwords_accepted_changed : ∃ c, Reached .sample QrSample.start c ∧
    (∃ row, c.world.store.db.users.get? 1 = some row ∧
      PasswordOrigin 1 QrSample.start c.world.history row) ∧
    ∃ later e earlier, c.world.history = later ++ e :: earlier ∧ writesPassword e = true ∧
      StoresAccepted .sample e (ownEvents e.tid earlier) := by
  let test : AppConfig → Bool := fun c ↦
    (c.world.store.db.users.get? 1).isSome && c.world.history.any writesPassword
  obtain ⟨c, hc, htest⟩ : ∃ c, Reached .sample QrSample.start c ∧ test c = true :=
    Reachable.of_schedule (PendingSample.changed 0) test (by decide) (by decide)
  obtain ⟨hsome, hwrites⟩ := Bool.and_eq_true_iff.mp htest
  obtain ⟨row, hrow⟩ := Option.isSome_iff_exists.mp hsome
  obtain ⟨e, he, hwrites⟩ := List.any_eq_true.mp hwrites
  obtain ⟨later, earlier, hhist⟩ := List.append_of_mem he
  obtain ⟨horigin, hstores⟩ := passwords_accepted hc
  exact ⟨c, hc, ⟨row, hrow, horigin 1 row hrow⟩, later, e, earlier, hhist, hwrites,
    hstores later e earlier hhist⟩

end ApiStarter
