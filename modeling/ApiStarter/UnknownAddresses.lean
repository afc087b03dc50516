import ApiStarter.Calls
import ApiStarter.ExpiryTimes
import ApiStarter.Interleave.Solo

/-!
# Known and unknown addresses

Who does not know an account's password cannot tell from the answers to sign-ins
and reset requests whether there is an account.  Behind the answers the two
cases differ: failures are counted, the account is locked, links are issued.
All that an answer depends on is that none of the passwords tried is the right
one, and this stays so.  The deadlines of a lock and of a link are only computed
for an account, so they must not be out of range, where computing them panics.
-/

namespace ApiStarter

open Interleave Interleave.Prog Relational Chrono

/-- The live account at the address. -/
def accountAt (address : String) (s : Server) : Option User :=
  s.db.users.find? fun u ↦ decide (u.email = address) && u.isLive

/-- Sign-ins and reset requests for one address. -/
def Request.asksAbout (cx : Context) (address : String) : Request → Bool
  | .login email _ | .forgotPassword email => decide (cx.normalizeEmail email = address)
  | _ => false

/-- No sign-in among the requests carries the password of the account at the address. -/
def NoneProves (cx : Context) (address : String) (ks : List Request) (s : Server) : Prop :=
  ∀ user, accountAt address s = some user → ∀ email password, .login email password ∈ ks →
    cx.verifyPassword password user.passwordHash = false

/-! ## Deadlines -/

/-- The time is a date of `chrono`. -/
def isDate (t : ℤ) : Bool :=
  decide (firstSecond * nanosPerSec ≤ 1000 * t) &&
    decide (1000 * t < (lastSecond + 1) * nanosPerSec)

/-- `Duration::minutes` does not panic. -/
def isDuration (d : ℤ) : Bool :=
  decide (-(maxI64 * 1000000) ≤ 1000 * d) && decide (1000 * d ≤ maxI64 * 1000000)

/-- The deadline that is bound to the statement cannot be computed, and computing it panics. -/
def Statement.panics (now : Time) : Statement → Bool
  | .sql (.users (.recordFailedLogin _ _ lockout)) =>
      !(isDuration lockout && isDate (now + lockout))
  | .sql (.authTokens (.insert _ _ _ _ expiresAt)) => !isDate expiresAt
  | _ => false

/-- The deadlines of a lock and of a reset link can be computed at every time before the year
3000. -/
structure Context.ModerateLifetimes (cx : Context) : Prop where
  lockout : FitsDates (cx.accountLockoutMinutes * 60)
  reset : FitsDates (cx.passwordResetTtlMinutes * 60)

/-- The time is after the epoch and before the year 3000. -/
def BeforeYear3000 (t : ℤ) : Prop := 0 ≤ t ∧ t < year3000 * 1000000

instance (t : ℤ) : Decidable (BeforeYear3000 t) := instDecidableAnd

/-- How much time passes before the `n`-th of the statements from number `k` on. -/
def elapsed (pace : ℕ → ℕ) (k : ℕ) : ℕ → ℕ
  | 0 => 0
  | n + 1 => pace k + elapsed pace (k + 1) n

/-- All statements run at such times. -/
def OnTime (pace : ℕ → ℕ) (t : Server × ℕ) : Prop :=
  ∀ n, BeforeYear3000 (t.1.now + elapsed pace t.2 n)

/-- The answers to requests that come one after the other, with time passing between all
statements; none where the handler panics. -/
def answers (cx : Context) (pace : ℕ → ℕ) (ks : List Request) (s : Server) :
    List (Option (Except AppError Response)) :=
  serveUnless ((machine cx).paced pace) (fun q t ↦ q.panics (t.1.now + pace t.2)) (handle cx) ks
    (s, 0)

def isDatabaseError : Option (Except AppError Response) → Bool
  | some (.error .database) => true
  | _ => false

/-- What somebody who knows nothing is told. -/
def plainAnswer : Request → Except AppError Response
  | .forgotPassword _ =>
      .ok (.message "If that address is registered, we sent a link to reset the password.")
  | _ => .error AuthError.invalidCredentials.into

section Deadlines

variable {cx : Context} {now : Time} {pace : ℕ → ℕ} {s : Server} {k : ℕ}

/-- What fits the dates can be added before the year 3000. -/
theorem isDate_add {n : ℤ} (hfits : FitsDates (n * 60)) (hnow : BeforeYear3000 now) :
    isDate (now + Time.minutes n) = true := by
  have hnanos : (1000 * Time.minutes n : ℤ) = n * 60 * nanosPerSec := minutes_nanos n
  obtain ⟨hlow, hhigh⟩ := hnow
  simp only [isDate, Bool.and_eq_true, decide_eq_true_eq]
  simp only [FitsDates, firstSecond, lastSecond, nanosPerSec, year3000] at *
  omega

theorem isDuration_minutes {n : ℤ} (hfits : FitsDates (n * 60)) :
    isDuration (Time.minutes n) = true := by
  have hnanos : (1000 * Time.minutes n : ℤ) = n * 60 * nanosPerSec := minutes_nanos n
  simp only [isDuration, Bool.and_eq_true, decide_eq_true_eq]
  simp only [FitsDates, firstSecond, lastSecond, nanosPerSec, year3000, maxI64] at *
  omega

/-- The next statement runs in time, and so do those after it. -/
theorem OnTime.next (h : OnTime pace (s, k)) : BeforeYear3000 (s.now + pace k) ∧
    ∀ s', s'.now = s.now + pace k → OnTime pace (s', k + 1) := by
  have hnext (n : ℕ) := h (n + 1)
  simp only [elapsed, Int.natCast_add, ← Int.add_assoc] at hnext
  constructor
  · simpa [elapsed] using hnext 0
  · intro s' hs' n
    rw [hs']
    exact hnext n

end Deadlines

/-! ## Statements -/

/-- Statements that neither add accounts nor change an address or a password. -/
def Statement.spares (q : Statement) : Prop :=
  q.effect ∈ [.none, .recordFailure, .mailLink] ∨ (∃ purpose, q.effect = .retireTokens purpose) ∨
    ∃ purpose, q.effect = .issueToken purpose

section Statements

variable {cx : Context} {pace : ℕ → ℕ} {address : String} {ks : List Request} {s : Server}
  {t : Server × ℕ}

theorem accountAt_exec {q : Statement} (hq : q.spares) {user : User}
    (h : accountAt address ((machine cx).exec q s).2 = some user) :
    ∃ before, accountAt address s = some before ∧ before.passwordHash = user.passwordHash := by
  cases q with
  | sql q =>
      cases q with
      | users q =>
          cases q with
          | findByEmail | findById | countActiveAdmins => exact ⟨user, h, rfl⟩
          | recordFailedLogin id maxAttempts lockout =>
              have hfind := Table.find?_updateWhere s.db.users (fun u ↦ decide (u.id = id))
                (User.withFailedLogin s.now maxAttempts lockout) (User.id_withFailedLogin _ _ _)
                (p := fun u ↦ decide (u.email = address) && u.isLive) fun _ ↦ rfl
              obtain ⟨before, hbefore, hafter⟩ := Option.map_eq_some_iff.mp (hfind.symm.trans h)
              refine ⟨before, hbefore, ?_⟩
              rw [← hafter]
              split <;> rfl
          | _ => simp [Statement.spares] at hq
      | _ => exact ⟨user, h, rfl⟩
  | _ => exact ⟨user, h, rfl⟩

theorem noneProves_exec {q : Statement} (hq : q.spares) (h : NoneProves cx address ks s) :
    NoneProves cx address ks ((machine cx).exec q s).2 := by
  intro user huser email password hmem
  obtain ⟨before, hbefore, hhash⟩ := accountAt_exec hq huser
  rw [← hhash]
  exact h before hbefore email password hmem

theorem now_exec (q : Statement) (s : Server) : ((machine cx).exec q s).2.now = s.now := by
  cases q <;> rfl

/-- None of the passwords is right, and it is early enough. -/
def Unproven (cx : Context) (pace : ℕ → ℕ) (address : String) (ks : List Request)
    (t : Server × ℕ) : Prop := NoneProves cx address ks t.1 ∧ OnTime pace t

/-- How a handler alone ends without a panic. -/
abbrev Goes (cx : Context) (pace : ℕ → ℕ) {ε α : Type} (p : Prog Statement.Res ε α)
    (Q : α → Server × ℕ → Prop) (E : ε → Server × ℕ → Prop) (t : Server × ℕ) : Prop :=
  SettlesUnless ((machine cx).paced pace) (fun q t ↦ q.panics (t.1.now + pace t.2)) p Q E t

theorem goes_query {q : Sql} {Q : q.Res → Server × ℕ → Prop} {E : AppError → Server × ℕ → Prop}
    (hsafe : Statement.panics (t.1.now + pace t.2) (.sql q) = false)
    (hQ : ∀ r, (q.run (t.1.now + pace t.2) t.1.db).1 = some r →
      Q r (((machine cx).paced pace).exec (.sql q) t).2)
    (hE : (q.run (t.1.now + pace t.2) t.1.db).1 = none →
      E .database (((machine cx).paced pace).exec (.sql q) t).2) :
    @Goes cx pace _ (no_index q.Res) (sql q) Q E t :=
  settlesUnless_bind.mpr
    ((settlesUnless_ask _).mpr ⟨hsafe, (settlesUnless_okOr ..).mpr ⟨hQ, hE⟩⟩)

section Unproven

variable {E : AppError → Prop} (h : Unproven cx pace address ks t)
include h

theorem Unproven.exec {q : Statement} (hq : q.spares) :
    Unproven cx pace address ks (((machine cx).paced pace).exec q t).2 :=
  ⟨noneProves_exec (s := (machine cx).env (pace t.2) t.1) hq h.1, h.2.next.2 _ (now_exec ..)⟩

theorem goes_asked {ε : Type} {q : Statement} (hq : q.spares)
    (hsafe : q.panics (t.1.now + pace t.2) = false) {Q : q.Res → Server × ℕ → Prop}
    {E : ε → Server × ℕ → Prop} (hQ : ∀ r t', Unproven cx pace address ks t' → Q r t') :
    Goes cx pace (ask q) Q E t :=
  (settlesUnless_ask q).mpr ⟨hsafe, hQ _ _ (h.exec hq)⟩

theorem goes_clock {ε : Type} {Q : Time → Server × ℕ → Prop} {E : ε → Server × ℕ → Prop}
    (hQ : ∀ now t', BeforeYear3000 now → Unproven cx pace address ks t' → Q now t') :
    @Goes cx pace ε Time clock Q E t :=
  (settlesUnless_ask Statement.clock).mpr ⟨rfl, hQ _ _ h.2.next.1 (h.exec (.inl (by simp)))⟩

theorem goes_sql {q : Sql} (hq : (Statement.sql q).spares)
    (hsafe : ∀ now, BeforeYear3000 now → (Statement.sql q).panics now = false)
    {Q : q.Res → Server × ℕ → Prop} (hE : E .database)
    (hQ : ∀ now r t', (q.run now t.1.db).1 = some r → Unproven cx pace address ks t' → Q r t') :
    @Goes cx pace _ (no_index q.Res) (sql q) Q
      (fun e t ↦ E e ∧ Unproven cx pace address ks t) t :=
  goes_query (hsafe _ h.2.next.1) (fun r hr ↦ hQ _ r _ hr (h.exec hq)) fun _ ↦ ⟨hE, h.exec hq⟩

end Unproven

end Statements

/-! ## Requests -/

section Requests

variable {cx : Context} {pace : ℕ → ℕ} {address email password : String} {ks : List Request}
  {t : Server × ℕ}

/-- Refused or cut short, and none of the passwords has become right. -/
def Refused (cx : Context) (pace : ℕ → ℕ) (address : String) (ks : List Request) (k : Request)
    (e : AppError) (t : Server × ℕ) : Prop :=
  (e = .database ∨ .error e = plainAnswer k) ∧ Unproven cx pace address ks t

theorem goes_login (hmoderate : cx.ModerateLifetimes) (hemail : cx.normalizeEmail email = address)
    (hmem : .login email password ∈ ks) (h : Unproven cx pace address ks t) :
    Goes cx pace (SessionService.login cx email password) (fun _ _ ↦ False)
      (Refused cx pace address ks (.login email password)) t := by
  refine settlesUnless_bind.mpr (goes_sql h (.inl (by simp)) (fun _ _ ↦ rfl) (.inl rfl)
    fun now found t₁ hfound h₁ ↦ ?_)
  refine settlesUnless_bind.mpr ((settlesUnless_okOr ..).mpr
    ⟨fun user huser ↦ ?_, fun _ ↦ ⟨.inr rfl, h₁⟩⟩)
  have hwrong : cx.verifyPassword password user.passwordHash = false := by
    refine h.1 user ?_ email password hmem
    rw [← huser, ← hemail]
    exact Option.some.inj hfound
  have hlocked : Goes cx pace (SessionService.isLocked user)
      (fun _ t ↦ Unproven cx pace address ks t)
        (Refused cx pace address ks (.login email password)) t₁ := by
    unfold SessionService.isLocked
    split
    · exact h₁
    · exact settlesUnless_bind.mpr (goes_clock h₁ fun _ _ _ h₂ ↦ h₂)
  refine settlesUnless_bind.mpr (hlocked.mono (fun locked t₂ h₂ ↦ ?_) fun _ _ h ↦ h)
  refine settlesUnless_bind.mpr
    ((settlesUnless_ensure ..).mpr ⟨fun _ ↦ ?_, fun _ ↦ ⟨.inr rfl, h₂⟩⟩)
  rw [hwrong]
  refine settlesUnless_bind.mpr (goes_sql h₂ (.inl (by simp)) (fun now hnow ↦ ?_) (.inl rfl)
    fun _ _ t₃ _ h₃ ↦ ⟨.inr rfl, h₃⟩)
  simp [Statement.panics, isDuration_minutes hmoderate.lockout, isDate_add hmoderate.lockout hnow]

theorem goes_forgot {k : Request} (hmoderate : cx.ModerateLifetimes)
    (h : Unproven cx pace address ks t) :
    Goes cx pace (PasswordResetService.forgot cx email)
      (fun _ t ↦ Unproven cx pace address ks t) (Refused cx pace address ks k) t := by
  refine settlesUnless_bind.mpr (goes_sql h (.inl (by simp)) (fun _ _ ↦ rfl) (.inl rfl)
    fun _ found t₁ _ h₁ ↦ ?_)
  cases found with
  | none => exact h₁
  | some user =>
      dsimp only
      split
      swap
      · exact h₁
      refine settlesUnless_bind.mpr
        (settlesUnless_bind.mpr (goes_clock h₁ fun _ t₂ _ h₂ ↦ ?_))
      refine goes_sql h₂ (.inl (by simp)) (fun _ _ ↦ rfl) (.inl rfl) fun _ recent t₃ _ h₃ ↦ ?_
      split
      · exact h₃
      refine settlesUnless_bind.mpr (settlesUnless_bind.mpr ?_)
      refine goes_sql h₃ (.inr (.inl ⟨_, rfl⟩)) (fun _ _ ↦ rfl) (.inl rfl) fun _ _ t₄ _ h₄ ↦ ?_
      refine settlesUnless_bind.mpr
        (settlesUnless_bind.mpr (goes_asked h₄ (.inl (by simp)) rfl fun _ t₅ h₅ ↦ ?_))
      refine settlesUnless_bind.mpr (goes_clock h₅ fun now t₆ hnow h₆ ↦ ?_)
      refine settlesUnless_bind.mpr (goes_sql h₆ (.inr (.inr ⟨_, rfl⟩)) (fun _ _ ↦ ?_)
        (.inl rfl) fun _ _ t₇ _ h₇ ↦ ?_)
      · simp [Statement.panics, isDate_add hmoderate.reset hnow]
      exact (settlesUnless_ret _).mpr (goes_asked h₇ (.inl (by simp)) rfl fun _ _ h₈ ↦ h₈)

/-- Every request is answered plainly, unless the database fails. -/
theorem answer_plain (hmoderate : cx.ModerateLifetimes) {k : Request}
    (hk : k.asksAbout cx address = true) (hmem : k ∈ ks) (h : Unproven cx pace address ks t) :
    ∃ r t', (handle cx k).aloneUnless ((machine cx).paced pace)
        (fun q t ↦ q.panics (t.1.now + pace t.2)) t = (some r, t') ∧
      (r = .error .database ∨ r = plainAnswer k) ∧ Unproven cx pace address ks t' := by
  have hgoes : Goes cx pace (handle cx k)
      (fun a t ↦ .ok a = plainAnswer k ∧ Unproven cx pace address ks t)
        (Refused cx pace address ks k) t := by
    cases k with
    | login email password =>
        refine settlesUnless_bind.mpr
          ((goes_login hmoderate ?_ hmem h).mono (fun _ _ ↦ False.elim) fun _ _ h ↦ h)
        exact of_decide_eq_true hk
    | forgotPassword email =>
        exact settlesUnless_bind.mpr
          ((goes_forgot hmoderate h).mono (fun _ _ h ↦ ⟨rfl, h⟩) fun _ _ h ↦ h)
    | _ => cases hk
  rcases hgoes.aloneUnless with ⟨a, t', hrun, hplain, hkept⟩ | ⟨e, t', hrun, hend, hkept⟩
  · exact ⟨_, t', hrun, .inr hplain, hkept⟩
  · exact ⟨_, t', hrun, hend.imp_left (congrArg _), hkept⟩

/-- Without an account the first look for one decides. -/
theorem goes_findByEmail {Q : Option User → Server × ℕ → Prop}
    {E : AppError → Server × ℕ → Prop} (hnone : accountAt (cx.normalizeEmail email) t.1 = none)
    (hQ : ∀ t', accountAt (cx.normalizeEmail email) t'.1 = none → Q none t') :
    Goes cx pace (UsersService.findByEmail cx email) Q E t := by
  refine goes_query rfl (fun found hfound ↦ ?_) fun herror ↦ ?_
  · obtain rfl : none = found := hnone.symm.trans (Option.some.inj hfound)
    exact hQ _ hnone
  · cases herror

theorem answer_unknown {k : Request} (hk : k.asksAbout cx address = true)
    (h : accountAt address t.1 = none) :
    ∃ t', (handle cx k).aloneUnless ((machine cx).paced pace)
        (fun q t ↦ q.panics (t.1.now + pace t.2)) t = (some (plainAnswer k), t') ∧
      accountAt address t'.1 = none := by
  have hgoes : Goes cx pace (handle cx k)
      (fun a t ↦ .ok a = plainAnswer k ∧ accountAt address t.1 = none)
        (fun e t ↦ .error e = plainAnswer k ∧ accountAt address t.1 = none) t := by
    cases k with
    | login email password =>
        obtain rfl : cx.normalizeEmail email = address := of_decide_eq_true hk
        exact settlesUnless_bind.mpr
          (settlesUnless_bind.mpr (goes_findByEmail h fun t' h' ↦ ⟨rfl, h'⟩))
    | forgotPassword email =>
        obtain rfl : cx.normalizeEmail email = address := of_decide_eq_true hk
        exact settlesUnless_bind.mpr
          (settlesUnless_bind.mpr (goes_findByEmail h fun t' h' ↦ ⟨rfl, h'⟩))
    | _ => cases hk
  rcases hgoes.aloneUnless with ⟨a, t', hrun, hplain, hnone⟩ | ⟨e, t', hrun, hplain, hnone⟩
  · exact ⟨t', hplain ▸ hrun, hnone⟩
  · exact ⟨t', hplain ▸ hrun, hnone⟩

end Requests

/-! ## Sequences of requests -/

section Sequences

variable {cx : Context} {pace : ℕ → ℕ} {address : String}

theorem serve_plain (hmoderate : cx.ModerateLifetimes) {ks rest : List Request}
    (hrest : ∀ k ∈ rest, k.asksAbout cx address = true ∧ k ∈ ks)
    {t : Server × ℕ} (h : Unproven cx pace address ks t)
    (hdatabase : ∀ r ∈ serveUnless ((machine cx).paced pace)
      (fun q t ↦ q.panics (t.1.now + pace t.2)) (handle cx) rest t, isDatabaseError r = false) :
    serveUnless ((machine cx).paced pace) (fun q t ↦ q.panics (t.1.now + pace t.2)) (handle cx)
      rest t = rest.map fun k ↦ some (plainAnswer k) := by
  induction rest generalizing t with
  | nil => rfl
  | cons k rest ih =>
      obtain ⟨hk, hmem⟩ := hrest k List.mem_cons_self
      obtain ⟨r, t', hrun, hanswer, hkept⟩ := answer_plain hmoderate hk hmem h
      rw [serveUnless, hrun] at hdatabase ⊢
      have hplain : r = plainAnswer k := by
        apply hanswer.resolve_left
        rintro rfl
        cases hdatabase _ List.mem_cons_self
      rw [List.map_cons, ← hplain, ih (fun k' hk' ↦ hrest k' (List.mem_cons_of_mem _ hk')) hkept
        fun r hr ↦ hdatabase r (List.mem_cons_of_mem _ hr)]

theorem serve_unknown {ks : List Request} (hks : ∀ k ∈ ks, k.asksAbout cx address = true)
    {t : Server × ℕ} (h : accountAt address t.1 = none) :
    serveUnless ((machine cx).paced pace) (fun q t ↦ q.panics (t.1.now + pace t.2)) (handle cx)
      ks t = ks.map fun k ↦ some (plainAnswer k) := by
  induction ks generalizing t with
  | nil => rfl
  | cons k ks ih =>
      obtain ⟨t', hrun, hkept⟩ := @answer_unknown _ pace _ _ _ (hks k List.mem_cons_self) h
      rw [serveUnless, hrun, List.map_cons,
        ih (fun k' hk' ↦ hks k' (List.mem_cons_of_mem _ hk')) hkept]

end Sequences

/-- The answers are the same from a server with an account at the address, whatever its state,
and from one without. -/
theorem address_unrevealed {cx : Context} {address : String} {ks : List Request} {s s' : Server}
    {pace pace' : ℕ → ℕ} {user : User} (hmoderate : cx.ModerateLifetimes)
    (htime : OnTime pace (s, 0)) (hks : ∀ k ∈ ks, k.asksAbout cx address = true)
    (haccount : accountAt address s = some user)
    (hwrong : ∀ email password, .login email password ∈ ks →
      cx.verifyPassword password user.passwordHash = false)
    (hdatabase : ∀ r ∈ answers cx pace ks s, isDatabaseError r = false)
    (hnone : accountAt address s' = none) : answers cx pace ks s = answers cx pace' ks s' := by
  have hproves : NoneProves cx address ks s := by
    intro user' huser' email password hmem
    obtain rfl : user = user' := Option.some.inj (haccount.symm.trans huser')
    exact hwrong email password hmem
  calc
    answers cx pace ks s = ks.map fun k ↦ some (plainAnswer k) :=
      serve_plain hmoderate (fun k hk ↦ ⟨hks k hk, hk⟩) ⟨hproves, htime⟩ hdatabase
    _ = answers cx pace' ks s' := (serve_unknown hks hnone).symm

namespace AddressSample

open Sample

def known : Server := server (.single (account 1 "ada@example.com" .user))

/-- Five wrong guesses, which lock the account, one more, and four requests for a link. -/
def probes : List Request :=
  List.replicate 6 (.login "ada@example.com" "guess") ++
    List.replicate 4 (.forgotPassword "ada@example.com")

/-- A second passes before the first statement. -/
def pace (n : ℕ) : ℕ := if n = 0 then 1000000 else 0

theorem onTime : OnTime pace (known, 0) := by
  intro n
  have hrest (k n : ℕ) : elapsed pace (k + 1) n = 0 := by
    induction n generalizing k with
    | zero => rfl
    | succ n ih => simp [elapsed, ih, pace]
  cases n with
  | zero => decide
  | succ n =>
      rw [elapsed, hrest]
      decide

end AddressSample

theorem address_unrevealed_locked :
    ((accountAt "ada@example.com" ((handle .sample (.login "ada@example.com" "guess")).alone
      (machine .sample) AddressSample.known).2).map User.failedLoginAttempts = some 1) ∧
      answers .sample AddressSample.pace AddressSample.probes AddressSample.known =
        answers .sample (fun _ ↦ 0) AddressSample.probes (Sample.server .empty) := by
  have hasks : ∀ k ∈ AddressSample.probes,
      k.asksAbout .sample "ada@example.com" = true := by decide
  have hmoderate : Context.sample.ModerateLifetimes :=
    ⟨⟨by decide, by decide⟩, ⟨by decide, by decide⟩⟩
  refine ⟨by decide,
    address_unrevealed hmoderate AddressSample.onTime hasks rfl ?_ (by decide) rfl⟩
  intro email password hmem
  simp only [AddressSample.probes, List.mem_append, List.mem_replicate, Request.login.injEq,
    reduceCtorEq, and_false, or_false] at hmem
  rw [hmem.2.2]
  decide

/-- With the longest lockout there is, the panic tells that there is an account. -/
example : answers { Context.sample with accountLockoutMinutes := maxI64 } (fun _ ↦ 0)
      [.login "ada@example.com" "guess"] AddressSample.known = [none] ∧
    answers { Context.sample with accountLockoutMinutes := maxI64 } (fun _ ↦ 0)
      [.login "ada@example.com" "guess"] (Sample.server .empty) =
        [some (.error AuthError.invalidCredentials.into)] :=
  ⟨rfl, rfl⟩

end ApiStarter
