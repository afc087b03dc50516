import ApiStarter.UnknownAddresses

/-!
# Tries before the lock

Attempts to log in to one account, one after the other.  The account counts
wrong passwords and is locked when the count reaches the threshold.  When a lock
runs out the count stays where it is, so the next wrong password locks the
account again at once; until then, the threshold is what the settings say.
-/

namespace ApiStarter

open Interleave Interleave.Prog Relational

structure LoginAttempt where
  email : String
  password : String

section Attempts

variable (cx : Context) (pace : ℕ → ℕ) (address : String)

/-- One attempt from start to answer, with time passing before each statement. -/
def attemptLogin (a : LoginAttempt) (t : Server × ℕ) : Except AppError Response × Server × ℕ :=
  (handle cx (.login a.email a.password)).alone ((machine cx).paced pace) t

/-- When the last lock of the account ends or ended, while this is on record. -/
def lockEnd (s : Server) : Option Time := (accountAt address s).bind User.lockedUntil

def lockedAt (now : Time) (s : Server) : Bool := (lockEnd address s).any fun until_ ↦ now < until_

/-- An attempt that starts from `t` looks up the account, then at the clock, and finds it locked. -/
def findsLock (t : Server × ℕ) : Bool :=
  lockedAt address (t.1.now + pace t.2 + pace (t.2 + 1)) t.1

def isCorrect (a : LoginAttempt) (s : Server) : Bool :=
  (accountAt address s).any fun u ↦ cx.verifyPassword a.password u.passwordHash

/-- The attempt leaves the account locked, which it had not found locked. -/
def locksNow (a : LoginAttempt) (t : Server × ℕ) : Bool :=
  !findsLock pace address t &&
    lockedAt address (attemptLogin cx pace a t).2.1.now (attemptLogin cx pace a t).2.1

/-- Wrong passwords since the later of the last correct one and the end of the last lock, after
the attempt when there were `wrong` before it. -/
def wrongAfter (wrong : ℕ) (a : LoginAttempt) (t : Server × ℕ) : ℕ :=
  if findsLock pace address t then wrong
  else if isCorrect cx address a t.1 || locksNow cx pace address a t then 0 else wrong + 1

/-- What an attempt may do after `wrong` wrong passwords. -/
structure AttemptSound (wrong : ℕ) (a : LoginAttempt) (t : Server × ℕ) : Prop where
  locks : locksNow cx pace address a t = true → isCorrect cx address a t.1 = false ∧
    cx.maxFailedLoginAttempts ≤ wrong + 1
  refused : findsLock pace address t = true →
    (attemptLogin cx pace a t).1 = .error AuthError.invalidCredentials.into ∧
      (attemptLogin cx pace a t).2.1.db = t.1.db
  passes : findsLock pace address t = false → isCorrect cx address a t.1 = true →
    (attemptLogin cx pace a t).1 ≠ .error AuthError.invalidCredentials.into ∧
      (accountAt address (attemptLogin cx pace a t).2.1).any (fun u ↦
        decide (u.failedLoginAttempts = 0) && u.lockedUntil.isNone) = true

def AttemptsSound : ℕ → List LoginAttempt → Server × ℕ → Prop
  | _, [], _ => True
  | wrong, a :: as, t => AttemptSound cx pace address wrong a t ∧
      AttemptsSound (wrongAfter cx pace address wrong a t) as (attemptLogin cx pace a t).2

/-- A wrong password where a lock has run out. -/
def meetsOldLock (a : LoginAttempt) (t : Server × ℕ) : Bool :=
  (lockEnd address t.1).isSome && !findsLock pace address t && !isCorrect cx address a t.1

/-- No wrong password comes after a lock has run out and before a correct one. -/
def NoOldLocks : List LoginAttempt → Server × ℕ → Prop
  | [], _ => True
  | a :: as, t => meetsOldLock cx pace address a t = false ∧
      NoOldLocks as (attemptLogin cx pace a t).2

/-- The wrong passwords an account has on record where no lock of it is. -/
def wrongOnRecord (row : User) : ℕ :=
  if row.lockedUntil.isNone then row.failedLoginAttempts.toNat else 0

end Attempts

/-! ## One attempt -/

section Attempt

variable {cx : Context} {pace : ℕ → ℕ} {address email password : String} {row : User}
  {t : Server × ℕ}

/-- Statements about other tables leave the account alone. -/
theorem accountAt_paced {q : Statement} (hq : ∀ q', q ≠ .sql (.users q'))
    (h : accountAt address t.1 = some row) :
    accountAt address (((machine cx).paced pace).exec q t).2.1 = some row := by
  cases q with
  | sql q =>
      cases q with
      | users q => exact absurd rfl (hq q)
      | _ => exact h
  | _ => exact h

/-- A write to the account's own columns keeps it at its address. -/
theorem accountAt_update {s : Server} {f : User → User} (hf : ∀ u, (f u).id = u.id)
    (hsame : ∀ u, (f u).email = u.email ∧ (f u).deletedAt = u.deletedAt)
    (h : accountAt address s = some row) :
    (s.db.users.updateWhere (fun u ↦ decide (u.id = row.id)) f hf).find?
      (fun u ↦ decide (u.email = address) && u.isLive) = some (f row) := by
  rw [Table.find?_updateWhere _ _ f hf fun u ↦ by simp [hsame u, User.isLive]]
  simp only [accountAt] at h
  simp [h]

theorem settles_paced {q : Sql} {Q : q.Res → Server × ℕ → Prop} {E : AppError → Server × ℕ → Prop}
    (hQ : ∀ r, (q.run (t.1.now + pace t.2) t.1.db).1 = some r →
      Q r (((machine cx).paced pace).exec (.sql q) t).2)
    (hE : (q.run (t.1.now + pace t.2) t.1.db).1 = none →
      E .database (((machine cx).paced pace).exec (.sql q) t).2) :
    @Settles _ _ _ _ (no_index q.Res) _ ((machine cx).paced pace) (sql q) Q E t :=
  settles_bind.mpr ((settles_ask _).mpr ((settles_okOr ..).mpr ⟨hQ, hE⟩))

theorem settles_elsewhere {q : Sql} (hq : ∀ q', q ≠ .users q')
    {Q : q.Res → Server × ℕ → Prop} {E : AppError → Server × ℕ → Prop}
    (h : accountAt address t.1 = some row)
    (hQ : ∀ r t', accountAt address t'.1 = some row → Q r t')
    (hE : ∀ t', accountAt address t'.1 = some row → E .database t') :
    @Settles _ _ _ _ (no_index q.Res) _ ((machine cx).paced pace) (sql q) Q E t :=
  settles_paced (fun r _ ↦ hQ r _ (accountAt_paced (by simpa using hq) h))
    fun _ ↦ hE _ (accountAt_paced (by simpa using hq) h)

theorem settles_issue {u : Uuid} {purpose : TokenPurpose} {ttl : Time} {newEmail : Option String}
    {Q : String → Server × ℕ → Prop} {E : AppError → Server × ℕ → Prop}
    (h : accountAt address t.1 = some row)
    (hQ : ∀ r t', accountAt address t'.1 = some row → Q r t')
    (hE : ∀ t', accountAt address t'.1 = some row → E .database t') :
    Settles ((machine cx).paced pace) (OneTimeTokenService.issue cx u purpose ttl newEmail)
      Q E t := by
  refine settles_bind.mpr (settles_elsewhere (by simp) h (fun _ t₁ h₁ ↦ ?_) hE)
  refine settles_bind.mpr (settles_bind.mpr ((settles_ask _).mpr ?_))
  refine settles_bind.mpr ((settles_ask _).mpr ?_)
  refine settles_bind.mpr (settles_elsewhere (by simp) ?_ (fun _ t₂ h₂ ↦ hQ _ _ h₂) hE)
  exact accountAt_paced (by simp) (accountAt_paced (by simp) h₁)

/-- The row of an account after a correct password. -/
def User.withoutFailures (u : User) : User :=
  { u with failedLoginAttempts := 0, lockedUntil := none }

theorem settles_signIn {user : User} (hid : user.id = row.id)
    (h : accountAt address t.1 = some row) :
    Settles ((machine cx).paced pace) (SessionService.signIn cx user)
      (fun _ t' ↦ accountAt address t'.1 = some row.withoutFailures)
      (fun e t' ↦ e ≠ AuthError.invalidCredentials.into ∧
        accountAt address t'.1 = some row.withoutFailures) t := by
  have hcleared : accountAt address (((machine cx).paced pace).exec
      (.sql (.users (.resetFailedLogins user.id))) t).2.1 = some row.withoutFailures := by
    rw [hid]
    exact accountAt_update (f := User.withoutFailures) (fun _ ↦ rfl) (fun _ ↦ ⟨rfl, rfl⟩) h
  refine settles_bind.mpr (settles_paced (fun _ _ ↦ ?_) fun _ ↦ ⟨by decide, hcleared⟩)
  refine settles_bind.mpr ((settles_ensure ..).mpr ⟨fun _ ↦ ?_, fun _ ↦ ⟨by decide, hcleared⟩⟩)
  refine settles_bind.mpr ((settles_ensure ..).mpr ⟨fun _ ↦ ?_, fun _ ↦ ⟨by decide, hcleared⟩⟩)
  split
  · refine settles_bind.mpr (settles_issue hcleared (fun _ t₁ h₁ ↦ h₁) fun t₁ h₁ ↦ ?_)
    exact ⟨by decide, h₁⟩
  · exact settles_bind.mpr (settles_bind.mpr ((settles_ask _).mpr
      (accountAt_paced (by simp) hcleared)))

/-- The three ways an attempt can end. -/
def AttemptEnds (cx : Context) (pace : ℕ → ℕ) (address : String) (a : LoginAttempt) (row : User)
    (t : Server × ℕ) (r : Except AppError Response) (t' : Server × ℕ) : Prop :=
  (findsLock pace address t = true ∧ r = .error AuthError.invalidCredentials.into ∧
    t'.1.db = t.1.db) ∨
  (findsLock pace address t = false ∧ cx.verifyPassword a.password row.passwordHash = false ∧
    (∀ until_ ∈ row.lockedUntil, until_ ≤ t'.1.now) ∧
      accountAt address t'.1 = some (row.withFailedLogin t'.1.now cx.maxFailedLoginAttempts
        (Time.minutes cx.accountLockoutMinutes))) ∨
  (findsLock pace address t = false ∧ cx.verifyPassword a.password row.passwordHash = true ∧
    r ≠ .error AuthError.invalidCredentials.into ∧
      accountAt address t'.1 = some row.withoutFailures)

/-- What follows once the lock was looked at. -/
theorem settles_checked {a : LoginAttempt} {t₁ : Server × ℕ}
    (h₁ : accountAt address t₁.1 = some row) (hopen : findsLock pace address t = false)
    (hover : ∀ until_ ∈ row.lockedUntil, until_ ≤ t₁.1.now) :
    Settles ((machine cx).paced pace)
      (if cx.verifyPassword a.password row.passwordHash then SessionService.signIn cx row
        else SessionService.wrongPassword cx row)
      (fun r t' ↦ AttemptEnds cx pace address a row t (.ok (.login r)) t')
      (fun e t' ↦ AttemptEnds cx pace address a row t (.error e) t') t₁ := by
  split
  next hcorrect =>
    refine (settles_signIn rfl h₁).mono (fun r t' hcleared ↦ ?_) fun e t' hrejected ↦ ?_
    · exact .inr (.inr ⟨hopen, hcorrect, nofun, hcleared⟩)
    · exact .inr (.inr ⟨hopen, hcorrect, fun heq ↦ hrejected.1 (Except.error.inj heq),
        hrejected.2⟩)
  next hwrong =>
    refine settles_bind.mpr (settles_paced (fun _ _ ↦ ?_) nofun)
    refine .inr (.inl ⟨hopen, by simpa using hwrong, fun until_ huntil ↦ ?_, ?_⟩)
    · exact (hover until_ huntil).trans (Int.le_add_of_nonneg_right (Int.natCast_nonneg _))
    · exact accountAt_update (User.id_withFailedLogin _ _ _) (fun _ ↦ ⟨rfl, rfl⟩) h₁

theorem attempt_ends {a : LoginAttempt} (hemail : cx.normalizeEmail a.email = address)
    (h : accountAt address t.1 = some row) :
    AttemptEnds cx pace address a row t (attemptLogin cx pace a t).1
      (attemptLogin cx pace a t).2 := by
  have hsettles : Settles ((machine cx).paced pace) (handle cx (.login a.email a.password))
      (fun r t' ↦ AttemptEnds cx pace address a row t (.ok r) t')
      (fun e t' ↦ AttemptEnds cx pace address a row t (.error e) t') t := by
    refine settles_bind.mpr (settles_bind.mpr (settles_paced (fun found hfound ↦ ?_) nofun))
    obtain rfl : some row = found := by
      rw [← h, ← hemail]
      exact Option.some.inj hfound
    refine settles_bind.mpr ((settles_okOr ..).mpr ⟨fun user huser ↦ ?_, nofun⟩)
    obtain rfl : row = user := Option.some.inj huser
    have hfound₁ : accountAt address (((machine cx).paced pace).exec
        (.sql (.users (.findByEmail (cx.normalizeEmail a.email)))) t).2.1 = some row := h
    cases hlock : row.lockedUntil with
    | none =>
        have hopen : findsLock pace address t = false := by
          simp [findsLock, lockedAt, lockEnd, h, hlock]
        have hcheck : SessionService.isLocked row = pure false := by
          simp [SessionService.isLocked, hlock]
        rw [hcheck]
        exact settles_bind.mpr ((settles_ret _).mpr (settles_bind.mpr ((settles_ensure ..).mpr
          ⟨fun _ ↦ settles_checked hfound₁ hopen (by simp [hlock]), by simp⟩)))
    | some until_ =>
        have hfinds : findsLock pace address t =
            decide (t.1.now + pace t.2 + pace (t.2 + 1) < until_) := by
          simp [findsLock, lockedAt, lockEnd, h, hlock]
        have hcheck : SessionService.isLocked row = (do
            let now ← clock
            pure (decide (now < until_))) := by
          simp [SessionService.isLocked, hlock]
        rw [hcheck]
        refine settles_bind.mpr (settles_bind.mpr ((settles_ask _).mpr ((settles_ret _).mpr ?_)))
        refine settles_bind.mpr ((settles_ensure ..).mpr ⟨fun hopen ↦ ?_, fun hlocked ↦ ?_⟩)
        · refine settles_checked (accountAt_paced (by simp) hfound₁) (hfinds.trans hopen) fun u hu ↦
            ?_
          obtain rfl : until_ = u := Option.some.inj (hlock.symm.trans hu)
          exact not_lt.mp (of_decide_eq_false hopen)
        · exact .inl ⟨hfinds.trans ((Bool.not_eq_false _).mp hlocked), rfl, rfl⟩
  obtain ⟨hok, herror⟩ := hsettles.alone
  cases hrun : (handle cx (.login a.email a.password)).alone ((machine cx).paced pace) t with
  | mk r t' =>
      unfold attemptLogin
      rw [hrun]
      cases r with
      | ok r => exact hok r t' hrun
      | error e => exact herror e t' hrun

end Attempt

/-! ## Sequences of attempts -/

section Sequences

variable {cx : Context} {pace : ℕ → ℕ} {address : String} {row : User} {t : Server × ℕ}
  {a : LoginAttempt}

theorem lockedAt_eq {now : Time} {s : Server} (h : accountAt address s = some row) :
    lockedAt address now s = row.lockedUntil.any fun until_ ↦ now < until_ := by
  simp [lockedAt, lockEnd, h]

theorem isCorrect_eq (h : accountAt address t.1 = some row) :
    isCorrect cx address a t.1 = cx.verifyPassword a.password row.passwordHash := by
  simp [isCorrect, h]

theorem lt_add_minutes (now : Time) (length : ℤ) :
    now < now + Time.minutes length ↔ 0 < length := by
  have hpos (n : ℤ) : n < n + length * 60 * 1000000 ↔ 0 < length := by omega
  exact hpos now

/-- A wrong password locks the account when the count reaches the threshold, however long ago the
earlier ones were. -/
theorem locksNow_wrong (hopen : findsLock pace address t = false)
    (hover : ∀ until_ ∈ row.lockedUntil, until_ ≤ (attemptLogin cx pace a t).2.1.now)
    (h : accountAt address (attemptLogin cx pace a t).2.1 =
      some (row.withFailedLogin (attemptLogin cx pace a t).2.1.now cx.maxFailedLoginAttempts
        (Time.minutes cx.accountLockoutMinutes))) :
    locksNow cx pace address a t = true ↔
      cx.maxFailedLoginAttempts ≤ row.failedLoginAttempts + 1 ∧ 0 < cx.accountLockoutMinutes := by
  rw [locksNow, hopen, lockedAt_eq h, User.withFailedLogin]
  by_cases hreached : row.failedLoginAttempts + 1 ≥ cx.maxFailedLoginAttempts
  · simp only [hreached, if_pos, Option.any_some, Bool.not_false, Bool.true_and,
      decide_eq_true_eq, true_and]
    exact lt_add_minutes _ _
  · simp only [hreached, if_false, false_and, iff_false]
    cases hlock : row.lockedUntil with
    | none => simp
    | some until_ => simpa using hover until_ hlock

theorem locksNow_correct (h : accountAt address (attemptLogin cx pace a t).2.1 =
    some row.withoutFailures) : locksNow cx pace address a t = false := by
  rw [locksNow, lockedAt_eq h]
  simp [User.withoutFailures]

theorem attemptSound_correct {wrong : ℕ} (hopen : findsLock pace address t = false)
    (hr : (attemptLogin cx pace a t).1 ≠ .error AuthError.invalidCredentials.into)
    (h : accountAt address (attemptLogin cx pace a t).2.1 = some row.withoutFailures) :
    AttemptSound cx pace address wrong a t where
  locks hlocks := by simp [locksNow_correct h] at hlocks
  refused hlocked := by simp [hopen] at hlocked
  passes _ _ := ⟨hr, by simp [h, User.withoutFailures]⟩

/-- When the threshold is more than one failure, a lock counts and no wrong password meets a lock
that has run out, the count on the row is the one that matters. -/
def TriesCounted (cx : Context) (pace : ℕ → ℕ) (address : String) (as : List LoginAttempt)
    (t : Server × ℕ) : Prop :=
  cx.maxFailedLoginAttempts ≤ 1 ∨ cx.accountLockoutMinutes ≤ 0 ∨ NoOldLocks cx pace address as t

theorem attemptsSound_of_counted (as : List LoginAttempt)
    (hemail : ∀ a ∈ as, cx.normalizeEmail a.email = address) :
    ∀ (wrong : ℕ) (row : User) (t : Server × ℕ), accountAt address t.1 = some row →
      (row.lockedUntil = none → row.failedLoginAttempts ≤ wrong) →
      TriesCounted cx pace address as t → AttemptsSound cx pace address wrong as t := by
  induction as with
  | nil => exact fun _ _ _ _ _ _ ↦ trivial
  | cons a as ih =>
      intro wrong row t h hwrong hcounted
      have ih' := ih fun a ha ↦ hemail a (List.mem_cons_of_mem _ ha)
      have hrest : TriesCounted cx pace address as (attemptLogin cx pace a t).2 :=
        hcounted.imp_right fun h ↦ h.imp_right And.right
      rcases @attempt_ends _ pace _ _ _ _ (hemail a List.mem_cons_self) h with
        ⟨hlocked, hr, hdb⟩ | ⟨hopen, hverify, hover, hafter⟩ | ⟨hopen, hverify, hr, hafter⟩
      · have hafter : accountAt address (attemptLogin cx pace a t).2.1 = some row := by
          rw [← h, accountAt, accountAt, hdb]
        refine ⟨⟨by simp [locksNow, hlocked], fun _ ↦ ⟨hr, hdb⟩, by simp [hlocked]⟩, ?_⟩
        rw [wrongAfter, if_pos hlocked]
        exact ih' wrong row _ hafter hwrong hrest
      · have hcorrect : isCorrect cx address a t.1 = false := (isCorrect_eq h).trans hverify
        have hlocks := locksNow_wrong (a := a) hopen hover hafter
        refine ⟨⟨fun hnow ↦ ⟨hcorrect, ?_⟩, by simp [hopen], by simp [hcorrect]⟩, ?_⟩
        · -- the count is not left over from an earlier lock
          obtain ⟨hreached, hlasts⟩ := hlocks.mp hnow
          rcases hcounted with hone | hshort | ⟨hmeets, -⟩
          · omega
          · omega
          · have hnone : row.lockedUntil = none := by
              simpa [meetsOldLock, lockEnd, h, hopen, hcorrect] using hmeets
            have := hwrong hnone
            omega
        · refine ih' _ _ _ hafter (fun hnone ↦ ?_) hrest
          have hunlocked : row.lockedUntil = none ∧
              ¬row.failedLoginAttempts + 1 ≥ cx.maxFailedLoginAttempts := by
            simp only [User.withFailedLogin] at hnone
            split at hnone
            · cases hnone
            · exact ⟨hnone, by assumption⟩
          have hnow : locksNow cx pace address a t = false := by
            refine (Bool.eq_false_iff).mpr fun hnow ↦ hunlocked.2 (hlocks.mp hnow).1
          have := hwrong hunlocked.1
          simp only [wrongAfter, hopen, hcorrect, hnow, User.withFailedLogin]
          simp
          omega
      · refine ⟨attemptSound_correct hopen hr hafter, ?_⟩
        have hcorrect : isCorrect cx address a t.1 = true := (isCorrect_eq h).trans hverify
        rw [wrongAfter, if_neg (by simp [hopen]), if_pos (by simp [hcorrect])]
        exact ih' 0 _ _ hafter (fun _ ↦ le_rfl) hrest

/-- A wrong password after a lock that has run out locks the account at the first try. -/
theorem noOldLocks_of_sound (hmax : 1 < cx.maxFailedLoginAttempts)
    (hlasts : 0 < cx.accountLockoutMinutes) (as : List LoginAttempt)
    (hemail : ∀ a ∈ as, cx.normalizeEmail a.email = address) :
    ∀ (wrong : ℕ) (row : User) (t : Server × ℕ), accountAt address t.1 = some row →
      (∀ until_ ∈ row.lockedUntil,
        cx.maxFailedLoginAttempts ≤ row.failedLoginAttempts ∧ wrong = 0) →
      AttemptsSound cx pace address wrong as t → NoOldLocks cx pace address as t := by
  induction as with
  | nil => exact fun _ _ _ _ _ _ ↦ trivial
  | cons a as ih =>
      intro wrong row t h hcount hsound
      have ih' := ih fun a ha ↦ hemail a (List.mem_cons_of_mem _ ha)
      rcases @attempt_ends _ pace _ _ _ _ (hemail a List.mem_cons_self) h with
        ⟨hlocked, -, hdb⟩ | ⟨hopen, hverify, hover, hafter⟩ | ⟨hopen, hverify, -, hafter⟩
      · have hafter : accountAt address (attemptLogin cx pace a t).2.1 = some row := by
          rw [← h, accountAt, accountAt, hdb]
        have hwrong : wrongAfter cx pace address wrong a t = wrong := by
          rw [wrongAfter, if_pos hlocked]
        exact ⟨by simp [meetsOldLock, hlocked], ih' wrong row _ hafter hcount (hwrong ▸ hsound.2)⟩
      · have hcorrect : isCorrect cx address a t.1 = false := (isCorrect_eq h).trans hverify
        have hlocks := locksNow_wrong (a := a) hopen hover hafter
        refine ⟨?_, ih' _ _ _ hafter (fun until_ huntil ↦ ?_) hsound.2⟩
        · cases hlock : row.lockedUntil with
          | none => simp [meetsOldLock, lockEnd, h, hlock]
          | some until_ =>
              obtain ⟨hreached, rfl⟩ := hcount until_ hlock
              have := (hsound.1.locks (hlocks.mpr ⟨by omega, hlasts⟩)).2
              omega
        · have hreached : cx.maxFailedLoginAttempts ≤ row.failedLoginAttempts + 1 := by
            by_contra hfew
            have hold : until_ ∈ row.lockedUntil := by
              simpa [User.withFailedLogin, hfew] using huntil
            have := (hcount until_ hold).1
            omega
          have hnow : locksNow cx pace address a t = true := hlocks.mpr ⟨hreached, hlasts⟩
          exact ⟨hreached, by simp [wrongAfter, hopen, hnow]⟩
      · have hcorrect : isCorrect cx address a t.1 = true := (isCorrect_eq h).trans hverify
        exact ⟨by simp [meetsOldLock, hcorrect],
          ih' _ _ _ hafter (by simp [User.withoutFailures]) hsound.2⟩

/-- Attempts lock an account only at the threshold unless a wrong password comes after a lock has
run out and before a correct one.  The converse is about accounts whose lock came from as many
failures as the threshold. -/
theorem attempts_sound (as : List LoginAttempt) (row : User) (t : Server × ℕ)
    (h : accountAt address t.1 = some row)
    (hemail : ∀ a ∈ as, cx.normalizeEmail a.email = address) :
    (TriesCounted cx pace address as t →
      AttemptsSound cx pace address (wrongOnRecord row) as t) ∧
    ((∀ until_ ∈ row.lockedUntil, cx.maxFailedLoginAttempts ≤ row.failedLoginAttempts) →
      AttemptsSound cx pace address (wrongOnRecord row) as t →
        TriesCounted cx pace address as t) := by
  refine ⟨fun hcounted ↦ ?_, fun hcount hsound ↦ ?_⟩
  · refine attemptsSound_of_counted as hemail _ row t h (fun hnone ↦ ?_) hcounted
    simp [wrongOnRecord, hnone]
  · by_cases hone : cx.maxFailedLoginAttempts ≤ 1
    · exact .inl hone
    by_cases hshort : cx.accountLockoutMinutes ≤ 0
    · exact .inr (.inl hshort)
    refine .inr (.inr (noOldLocks_of_sound (by omega) (by omega) as hemail _ row t h
      (fun until_ huntil ↦ ⟨hcount until_ huntil, ?_⟩) hsound))
    simp [wrongOnRecord, Option.mem_def.mp huntil]

end Sequences

namespace AttemptSample

open Sample

def start : Server × ℕ := (server (.single (account 1 "ada@example.com" .user)), 0)

def guess : LoginAttempt := ⟨"ada@example.com", "guess"⟩

def password : LoginAttempt := ⟨"ada@example.com", "correct-horse"⟩

/-- Half an hour goes by before the eleventh statement, which is the first after five guesses. -/
def pace (n : ℕ) : ℕ := if n = 10 then 1800000000 else 1

end AttemptSample

/-- The fifth guess locks the account, and the password is refused then. -/
theorem attempts_sound_locked :
    AttemptsSound .sample (fun _ ↦ 1) "ada@example.com" 0
      (List.replicate 5 AttemptSample.guess ++ [AttemptSample.password]) AttemptSample.start :=
  (attempts_sound (List.replicate 5 AttemptSample.guess ++ [AttemptSample.password])
    (Sample.account 1 "ada@example.com" .user) AttemptSample.start rfl (by decide)).1
    (.inr (.inr ⟨by decide, by decide, by decide, by decide, by decide, by decide, trivial⟩))

/-- Five guesses lock the account.  When the lock has run out, a single one does. -/
theorem old_lock_leaves_count :
    ¬AttemptsSound .sample AttemptSample.pace "ada@example.com" 0
      (List.replicate 6 AttemptSample.guess) AttemptSample.start := by
  intro hsound
  have hlocks := hsound.2.2.2.2.2.1.locks (by decide)
  exact absurd hlocks.2 (by decide)

end ApiStarter
