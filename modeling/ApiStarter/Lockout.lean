import ApiStarter.Calls

/-!
# Account lockout

`login` looks at `locked_until` on the row it read, checks the password, and
then counts the failure or clears the counter in a statement of its own.  A
lock set by others in between is not seen.
-/

namespace ApiStarter

open Interleave Interleave.Prog Relational

/-- The account is locked at this moment. -/
def lockedNow (u : Uuid) (s : Server) : Prop :=
  userIs u (fun row ↦ ∃ until_ ∈ row.lockedUntil, s.now < until_) s

/-- No lock of the account lasts beyond `t`. -/
def unlockedBy (u : Uuid) (t : Time) (s : Server) : Prop :=
  ∀ row, s.db.users.get? u = some row → ∀ until_ ∈ row.lockedUntil, until_ ≤ t

/-- As many failures as the threshold come with a lock. -/
def FailuresLock (cx : Context) (u : Uuid) (s : Server) : Prop :=
  ∀ row, s.db.users.get? u = some row → 0 < row.failedLoginAttempts →
    cx.maxFailedLoginAttempts ≤ row.failedLoginAttempts → row.lockedUntil ≠ none

def looksUpEmail : AppEvent → Bool
  | .ran _ _ (.sql (.users (.findByEmail _))) _ => true
  | _ => false

def clearsFailures (u : Uuid) : AppEvent → Bool
  | .ran _ _ (.sql (.users (.resetFailedLogins id))) _ => decide (id = u)
  | _ => false

/-- A wrong password locks the account beyond `t`. -/
def locksBeyond (u : Uuid) (t : Time) : AppEvent → Bool
  | .ran _ _ (.sql (.users (.recordFailedLogin id maxAttempts lockout))) before =>
      decide (id = u) && decide (t < before.now + lockout) &&
        (before.db.users.get? u).any fun row ↦ decide (row.failedLoginAttempts + 1 ≥ maxAttempts)
  | _ => false

/-- The failure counter of `u` is cleared, or a login of `u` succeeds. -/
def signsIn (u : Uuid) : AppEvent → List AppEvent → Bool
  | .answered i (.login ..) (.ok _) _, earlier =>
      earlier.any fun x ↦ decide (x.tid = i) && clearsFailures u x
  | e, _ => clearsFailures u e

/-- While the account is locked no login of it succeeds or clears the counter, so after as many
failures as the threshold one has to wait until the lock has run out. -/
structure LockHolds (cx : Context) (u : Uuid) (h : List AppEvent) : Prop where
  notLocked : ∀ later e earlier, h = later ++ e :: earlier → signsIn u e earlier = true →
    ¬lockedNow u e.store
  burst : ∀ later e earlier, h = later ++ e :: earlier → signsIn u e earlier = true →
    ∀ row, e.store.db.users.get? u = some row → 0 < row.failedLoginAttempts →
      cx.maxFailedLoginAttempts ≤ row.failedLoginAttempts →
        ∃ until_, row.lockedUntil = some until_ ∧ until_ ≤ e.store.now

/-- Since the login has looked the account up, no wrong password has locked it beyond this
moment. -/
def checksInTime (u : Uuid) (e : AppEvent) (earlier : List AppEvent) : Bool :=
  !signsIn u e earlier ||
    (earlier.takeWhile fun x ↦ !(decide (x.tid = e.tid) && looksUpEmail x)).all
      fun x ↦ !locksBeyond u e.store.now x

/-! ## One statement -/

section Statements

variable {cx : Context} {u : Uuid} {t : Time} {s : Server} {q : Statement}

/-- A statement counts a failure, clears them all, or leaves the lock alone. -/
theorem UsersSql.lockout_onRow (now : Time) (users : Table User.id) (row : User) (q : UsersSql) :
    (∃ maxAttempts lockout, q = .recordFailedLogin row.id maxAttempts lockout ∧
      q.onRow now users row = row.withFailedLogin now maxAttempts lockout) ∨
    ((q.onRow now users row).failedLoginAttempts = 0 ∧ (q.onRow now users row).lockedUntil = none) ∨
    ((q.onRow now users row).failedLoginAttempts = row.failedLoginAttempts ∧
      (q.onRow now users row).lockedUntil = row.lockedUntil) := by
  cases q with
  | recordFailedLogin id maxAttempts lockout =>
      by_cases hid : row.id = id
      · subst hid
        exact .inl ⟨maxAttempts, lockout, rfl, by simp [onRow]⟩
      · exact .inr (.inr (by simp [onRow, hid]))
  | resetFailedLogins id =>
      by_cases hid : row.id = id
      · exact .inr (.inl (by simp [onRow, hid]))
      · exact .inr (.inr (by simp [onRow, hid]))
  | _ =>
      refine .inr (.inr ?_)
      simp only [onRow]
      repeat' split
      all_goals simp [UserPatch.apply, User.markDeleted]

/-- A row after a statement is new, or was there before. -/
theorem get?_exec_users {row' : User} (h : ((machine cx).exec q s).2.db.users.get? u = some row') :
    (row'.failedLoginAttempts = 0 ∧ row'.lockedUntil = none) ∨
      ∃ row, s.db.users.get? u = some row ∧ (row' = row ∨
        ∃ q', q = .sql (.users q') ∧ row' = q'.onRow s.now s.db.users row) := by
  cases q with
  | sql q =>
      cases q with
      | users q =>
          simp only [exec_sql, Sql.run] at h
          cases hget : s.db.users.get? u with
          | none =>
              obtain ⟨new, -, rfl⟩ := UsersSql.get?_run_none hget h
              exact .inl ⟨rfl, rfl⟩
          | some row =>
              rw [UsersSql.get?_run hget q, Option.some.injEq] at h
              exact .inr ⟨row, rfl, .inr ⟨q, rfl, h.symm⟩⟩
      | _ => exact .inr ⟨row', h, .inl rfl⟩
  | _ => exact .inr ⟨row', h, .inl rfl⟩

theorem unlockedBy_exec {i : ℕ} {k : Request} (h : unlockedBy u t s)
    (hq : locksBeyond u t (.ran i k q s) = false) : unlockedBy u t ((machine cx).exec q s).2 := by
  intro row' hrow' lock hlock
  rcases get?_exec_users hrow' with ⟨-, hnone⟩ | ⟨row, hget, rfl | ⟨q, rfl, rfl⟩⟩
  · simp [hnone] at hlock
  · exact h row' hget lock hlock
  have hid : row.id = u := Table.key_of_get? hget
  rcases UsersSql.lockout_onRow s.now s.db.users row q with
    ⟨maxAttempts, lockout, rfl, heq⟩ | ⟨-, hnone⟩ | ⟨-, hsame⟩
  · simp only [heq, User.withFailedLogin] at hlock
    split at hlock
    next hreached =>
      obtain rfl := Option.some.inj hlock
      simpa [locksBeyond, hget, hid, hreached] using hq
    next => exact h row hget lock hlock
  · simp [hnone] at hlock
  · exact h row hget lock (hsame ▸ hlock)

theorem failuresLock_exec (h : FailuresLock cx u s)
    (hq : ∀ id maxAttempts lockout, q = .sql (.users (.recordFailedLogin id maxAttempts lockout)) →
      maxAttempts = cx.maxFailedLoginAttempts) : FailuresLock cx u ((machine cx).exec q s).2 := by
  intro row' hrow' hpos hmax
  rcases get?_exec_users hrow' with ⟨hzero, -⟩ | ⟨row, hget, rfl | ⟨q, rfl, rfl⟩⟩
  · omega
  · exact h row' hget hpos hmax
  rcases UsersSql.lockout_onRow s.now s.db.users row q with
    ⟨maxAttempts, lockout, rfl, heq⟩ | ⟨hzero, -⟩ | ⟨hcount, hsame⟩
  · obtain rfl := hq _ _ _ rfl
    rw [heq] at hmax ⊢
    have hreached : row.failedLoginAttempts + 1 ≥ cx.maxFailedLoginAttempts := hmax
    simp [User.withFailedLogin, hreached]
  · omega
  · rw [hcount] at hpos hmax
    rw [hsame]
    exact h row hget hpos hmax

end Statements

/-! ## One request -/

/-- Thread `i` looked the account up last when no lock of it lasted, as its clock said. -/
def FoundUnlocked (u : Uuid) (own : List AppEvent) : Prop :=
  ∃ newer read older, own = newer ++ read :: older ∧ looksUpEmail read = true ∧
    (∀ e ∈ newer, looksUpEmail e = false) ∧
      ∃ checked ∈ newer ++ [read], unlockedBy u checked.store.now read.store

/-- Failures are counted against the configured threshold, and who is signed in was found
unlocked. -/
def LoginSteps (cx : Context) : AppEvent → List AppEvent → Prop
  | .ran _ _ (.sql (.users (.recordFailedLogin _ maxAttempts _))) _, _ =>
      maxAttempts = cx.maxFailedLoginAttempts
  | .ran _ _ (.sql (.users (.resetFailedLogins u))) _, own => FoundUnlocked u own
  | .answered _ (.login ..) (.ok _) _, own =>
      ∀ u, (∃ e ∈ own, clearsFailures u e = true) → FoundUnlocked u own
  | _, _ => True

section Handlers

variable {cx : Context}

theorem loginSteps_of_effect {q : Statement} (hq : q.effect ≠ .recordFailure)
    (hq' : q.effect ≠ .resetFailures) (i : ℕ) (k : Request) (b : Server) (own : List AppEvent) :
    LoginSteps cx (.ran i k q b) own := by
  unfold LoginSteps
  split
  next heq =>
    cases heq
    exact absurd rfl hq
  next heq =>
    cases heq
    exact absurd rfl hq'
  next heq => cases heq
  next => trivial

theorem FoundUnlocked.cons {u : Uuid} {own : List AppEvent} (h : FoundUnlocked u own) {e : AppEvent}
    (he : looksUpEmail e = false) : FoundUnlocked u (e :: own) := by
  obtain ⟨newer, read, older, rfl, hread, hnewer, checked, hmem, hunlocked⟩ := h
  refine ⟨e :: newer, read, older, rfl, hread, fun x hx ↦ ?_, checked, by simp_all, hunlocked⟩
  rcases List.mem_cons.mp hx with rfl | hx
  · exact he
  · exact hnewer x hx

/-- The login has found `user` unlocked and cleared no other account's failures. -/
structure ActsFor (user : User) (own : List AppEvent) : Prop where
  unlocked : FoundUnlocked user.id own
  clears : ∀ e ∈ own, ∀ u, clearsFailures u e = true → u = user.id

theorem ActsFor.cons {user : User} {own : List AppEvent} (h : ActsFor user own)
    {i : ℕ} {k : Request}
    {q : Statement} (hq : q = .sql (.users (.resetFailedLogins user.id)) ∨
      ∀ q', q ≠ .sql (.users q')) (b : Server) : ActsFor user (.ran i k q b :: own) := by
  have hlooks : looksUpEmail (.ran i k q b) = false := by
    unfold looksUpEmail
    split
    next heq =>
      cases heq
      simp at hq
    next => rfl
  refine ⟨h.unlocked.cons hlooks, fun e he u hu ↦ ?_⟩
  rcases List.mem_cons.mp he with rfl | he
  · unfold clearsFailures at hu
    split at hu
    next heq =>
      cases heq
      obtain rfl := of_decide_eq_true hu
      simpa using hq
    next => cases hu
  · exact h.clears e he u hu

/-- What follows the password check. -/
theorem traced_signIn {i : ℕ} {email password : String} {user : User} {own : List AppEvent}
    (h : ActsFor user own) :
    Traced (machine cx) (LoginSteps cx) i (.login email password)
      (if cx.verifyPassword password user.passwordHash then SessionService.signIn cx user
        else SessionService.wrongPassword cx user)
      (fun response ↦ Delivers (LoginSteps cx) i (.login email password) (.ok (.login response)))
      (fun e ↦ Delivers (LoginSteps cx) i (.login email password) (.error e)) own := by
  split
  · have honly : (SessionService.signIn cx user).Only fun q ↦
        q = .sql (.users (.resetFailedLogins user.id)) ∨ ∀ q', q ≠ .sql (.users q') := by
      simp only [SessionService.signIn, only_sql_bind, only_ensure_bind, only_ite]
      refine ⟨by simp, fun _ _ _ ↦ ⟨fun _ ↦ ?_, fun _ ↦ ?_⟩⟩
      · exact .bind (by simp [OneTimeTokenService.issue]) fun _ ↦ trivial
      · exact (only_issueJwt (by simp)).bind fun _ ↦ trivial
    refine (traced_of_only (A := ActsFor user) honly (returns_true _)
      (fun q hq s own h ↦ ?_) h).mono
      (fun response own h s u hu ↦ ?_) fun e own _ _ ↦ trivial
    · refine ⟨?_, h.cons hq s⟩
      rcases hq with rfl | hq
      · exact h.unlocked
      · cases q with
        | sql q =>
            cases q with
            | users q => exact absurd rfl (hq q)
            | _ => trivial
        | _ => trivial
    · obtain ⟨e, he, hclears⟩ := hu
      exact h.2.clears e he u hclears ▸ h.2.unlocked
  · exact traced_bind.mpr (traced_sql (fun _ ↦ rfl) (fun _ _ _ _ ↦ trivial) (fun _ _ _ ↦ trivial)
      fun _ ↦ trivial)

theorem traces_login_steps (email password : String) :
    Traces (machine cx) (LoginSteps cx) (.login email password) (handle cx) := by
  intro i
  have failed : ∀ (e : AppError) (own : List AppEvent),
      Delivers (LoginSteps cx) i (.login email password) (.error e) own := fun _ _ _ ↦ trivial
  refine traced_bind.mpr (traced_bind.mpr (traced_sql (fun _ ↦ trivial) (fun s₁ found hfound ↦ ?_)
    (fun _ _ ↦ failed _ _) (failed _ _)))
  refine traced_bind.mpr ((traced_okOr ..).mpr ⟨fun user huser ↦ ?_, fun _ ↦ failed _ _⟩)
  let read : AppEvent := .ran i (.login email password)
    (.sql (.users (.findByEmail (cx.normalizeEmail email)))) s₁
  have hget : s₁.db.users.get? user.id = some user := by
    have hfind := (Option.some.inj hfound).trans huser
    exact Table.get?_of_mem (Table.find?_eq_some hfind).1
  have hunlocked : ∀ t, (∀ lock ∈ user.lockedUntil, lock ≤ t) → unlockedBy user.id t s₁ := by
    intro t ht row hrow
    obtain rfl : user = row := Option.some.inj (hget.symm.trans hrow)
    exact ht
  apply traced_bind.mpr
  unfold SessionService.isLocked
  split
  next hnone =>
    refine traced_bind.mpr
      ((traced_ensure ..).mpr ⟨fun _ ↦ traced_signIn ⟨?_, by simp [clearsFailures]⟩,
      fun _ ↦ failed _ _⟩)
    exact ⟨[], read, [], rfl, rfl, by simp, read, by simp, hunlocked _ (by simp [hnone])⟩
  next lock hlock =>
    refine traced_bind.mpr (traced_clock fun s₂ ↦ ⟨trivial, ?_⟩)
    refine traced_bind.mpr
      ((traced_ensure ..).mpr ⟨fun hnot ↦ traced_signIn ⟨?_, by simp [clearsFailures]⟩,
      fun _ ↦ failed _ _⟩)
    refine ⟨[.ran i (.login email password) .clock s₂], read, [], rfl, rfl, by simp [looksUpEmail],
      _, List.mem_append_left _ List.mem_cons_self, hunlocked _ ?_⟩
    simpa [hlock] using hnot

theorem traces_loginSteps (k : Request) : Traces (machine cx) (LoginSteps cx) k (handle cx) := by
  by_cases hk : Effect.resetFailures ∈ k.effects
  · cases k with
    | login email password => exact traces_login_steps email password
    | _ => simp at hk
  · refine .of_only (S := fun q ↦ q.effect ≠ .recordFailure ∧ q.effect ≠ .resetFailures)
      (handle_only k fun q hq ↦ ⟨fun heq ↦ ?_, fun heq ↦ ?_⟩)
      (fun q hq i s own ↦ loginSteps_of_effect hq.1 hq.2 i k s own) fun i a s own ↦ ?_
    · rw [heq] at hq
      cases k <;> simp at hk hq
    · exact hk (by simpa [heq] using hq)
    · cases k with
      | login email password => simp at hk
      | _ => cases a <;> trivial

end Handlers

/-! ## All runs -/

section Runs

variable {cx : Context} {s : Server} {c : AppConfig} {u : Uuid}

/-- The clock never goes back. -/
theorem Reached.now_le (hc : Reached cx s c) {e : AppEvent} (he : e ∈ c.world.history) :
    e.store.now ≤ c.world.store.now := by
  refine hc.world_induction (P := fun W ↦ ∀ e ∈ W.history, e.store.now ≤ W.store.now)
    ?_ ?_ ?_ ?_ e he
  · simp
  · intro i k q W ih e he
    have hnow : ((machine cx).exec q W.store).2.now = W.store.now := by cases q <;> rfl
    rw [World.ran_store, hnow]
    rcases List.mem_cons.mp he with rfl | he
    · exact le_rfl
    · exact ih e he
  · intro i k a W ih e he
    rcases List.mem_cons.mp he with rfl | he
    · exact le_rfl
    · exact ih e he
  · intro x W ih e he
    exact (ih e he).trans (Int.le_add_of_nonneg_right (Int.natCast_nonneg x))

/-- Whoever signs in has found the account unlocked. -/
theorem Reached.foundUnlocked (hc : Reached cx s c) {later earlier : List AppEvent} {e : AppEvent}
    (hhist : c.world.history = later ++ e :: earlier) (hsigns : signsIn u e earlier = true) :
    FoundUnlocked u (ownEvents e.tid earlier) := by
  have hsteps : LoginSteps cx e (ownEvents e.tid earlier) :=
    Along.of_append (P := AlongOwn (LoginSteps cx))
      (hhist ▸ hc.traces fun k _ ↦ traces_loginSteps k)
  unfold signsIn at hsigns
  split at hsigns
  next i email password response b =>
    obtain ⟨x, hx, hboth⟩ := List.any_eq_true.mp hsigns
    rw [Bool.and_eq_true, decide_eq_true_eq] at hboth
    exact hsteps u ⟨x, mem_ownEvents.mpr ⟨hx, hboth.1⟩, hboth.2⟩
  next =>
    unfold clearsFailures at hsigns
    split at hsigns
    next => exact of_decide_eq_true hsigns ▸ hsteps
    next => cases hsigns

/-- If no lock was set since, the account is still unlocked when the login goes through. -/
theorem Reached.unlockedBy_of_signsIn (hc : Reached cx s c) {later earlier : List AppEvent}
    {e : AppEvent} (hhist : c.world.history = later ++ e :: earlier)
    (hsigns : signsIn u e earlier = true) (htime : checksInTime u e earlier = true) :
    unlockedBy u e.store.now e.store := by
  obtain ⟨newer, read, older, hown, hread, hnewer, checked, hchecked, hunlocked⟩ :=
    hc.foundUnlocked hhist hsigns
  obtain ⟨since, before, rfl, rfl, -⟩ := exists_of_ownEvents hown
  obtain ⟨c', hc', hworld⟩ := hc.past hhist
  have htid : read.tid = e.tid := (mem_ownEvents.mp (hown ▸ List.mem_append_right _
    List.mem_cons_self : read ∈ ownEvents e.tid _)).2
  -- the check came before the login goes through, and the clock does not go back
  have hnow : checked.store.now ≤ e.store.now := by
    have hmem : checked ∈ c'.world.history := by
      rw [hworld]
      rcases List.mem_append.mp hchecked with h | h
      · exact List.mem_append_left _ (mem_ownEvents.mp h).1
      · simp [List.mem_singleton.mp h]
    simpa [hworld] using Reached.now_le hc' hmem
  have hquiet : ∀ x ∈ since, locksBeyond u e.store.now x = false := by
    have hwhile : (since ++ read :: before).takeWhile
        (fun x ↦ !(decide (x.tid = e.tid) && looksUpEmail x)) = since := by
      rw [List.takeWhile_append_of_pos]
      · simp [hread, htid]
      · intro x hx
        by_cases hxe : x.tid = e.tid
        · simp [hnewer x (mem_ownEvents.mpr ⟨hx, hxe⟩)]
        · simp [hxe]
    simp only [checksInTime, hsigns, hwhile, Bool.not_true, Bool.false_or,
      List.all_eq_true] at htime
    exact fun x hx ↦ by simpa using htime x hx
  have hlive := hc'.live_of_kept (unlockedBy u e.store.now) (fun _ _ ↦ Iff.rfl)
    (by rw [hworld] : c'.world.history = since ++ read :: before)
    (fun row hrow lock hlock ↦ (hunlocked row hrow lock hlock).trans hnow) fun x hx hlive hend ↦ ?_
  · simpa [hworld] using hlive
  · cases x with
    | answered => exact hend
    | ran i k q b =>
        refine hend (unlockedBy_exec (i := i) (k := k) hlive ?_)
        rcases List.mem_cons.mp hx with rfl | hx
        · unfold looksUpEmail at hread
          split at hread
          next heq =>
            cases heq
            rfl
          next => cases hread
        · exact hquiet _ hx

theorem Reached.failuresLock (hc : Reached cx s c) (hstart : FailuresLock cx u s) :
    FailuresLock cx u c.world.store := by
  refine hc.live_of_start (FailuresLock cx u) (fun _ _ ↦ Iff.rfl) hstart fun x hx hlive hend ↦ ?_
  obtain ⟨later, earlier, hhist, hsteps⟩ := (hc.traces fun k _ ↦ traces_loginSteps k).of_mem hx
  cases x with
  | answered => exact hend
  | ran i k q b =>
      refine hend (failuresLock_exec hlive fun id maxAttempts lockout heq ↦ ?_)
      subst heq
      exact hsteps

theorem lock_holds (hc : Reached cx s c) (hstart : FailuresLock cx u s)
    (htime : Along (fun e earlier ↦ checksInTime u e earlier = true) c.world.history) :
    LockHolds cx u c.world.history := by
  constructor
  case notLocked =>
    rintro later e earlier hhist hsigns ⟨row, hrow, lock, hlock, hlt⟩
    have hunlocked := hc.unlockedBy_of_signsIn hhist hsigns (Along.of_append (hhist ▸ htime))
    exact absurd (hunlocked row hrow lock hlock) (not_le.mpr hlt)
  case burst =>
    intro later e earlier hhist hsigns row hrow hpos hmax
    have hunlocked := hc.unlockedBy_of_signsIn hhist hsigns (Along.of_append (hhist ▸ htime))
    obtain ⟨c', hc', hworld⟩ := hc.past hhist
    have hlocks :
        FailuresLock cx u e.store := by simpa [hworld] using Reached.failuresLock hc' hstart
    obtain ⟨lock, hlock⟩ := Option.ne_none_iff_exists'.mp (hlocks row hrow hpos hmax)
    exact ⟨lock, hlock, hunlocked row hrow lock hlock⟩

end Runs

/-! ## A burst of guesses -/

def Request.logsIn : Request → Bool
  | .login .. => true
  | _ => false

namespace LockoutSample

open Sample

def start : Server := server (.single (account 1 "ada@example.com" .user))

def guess (password : String) : Action Request ℕ := .start (.login "ada@example.com" password)

/-- Ada mistypes her password once. -/
def mistyped : List (Action Request ℕ) :=
  alone 0 (.login "ada@example.com" "correct-house") 2 ++
    alone 1 (.login "ada@example.com" "correct-horse") 3

/-- Six guesses have read the account before the five wrong ones are counted. -/
def burst : List (Action Request ℕ) :=
  (["a", "b", "c", "d", "e", "correct-horse"].map guess) ++ (List.range 6).map .run ++
    (List.range 5).map .run ++ [.run 5]

end LockoutSample

theorem lock_holds_after_mistake :
    ∃ c, Reached .sample LockoutSample.start c ∧
      (∃ e ∈ c.world.history, clearsFailures 1 e = true ∧
        userIs 1 (fun row ↦ row.failedLoginAttempts = 1) e.store) ∧
          LockHolds .sample 1 c.world.history := by
  let test : AppConfig → Bool := fun c ↦
    (c.world.history.any fun e ↦ clearsFailures 1 e &&
      (e.store.db.users.get? 1).any fun row ↦ decide (row.failedLoginAttempts = 1)) &&
        decide (Along (fun e earlier ↦ checksInTime 1 e earlier = true) c.world.history)
  obtain ⟨c, hc, htest⟩ : ∃ c, Reached .sample LockoutSample.start c ∧ test c = true :=
    Reachable.of_schedule LockoutSample.mistyped test (by decide) (by decide)
  simp only [test, Bool.and_eq_true, decide_eq_true_eq, List.any_eq_true,
    Option.any_eq_true] at htest
  obtain ⟨⟨e, he, hclears, row, hrow, hcount⟩, htime⟩ := htest
  refine ⟨c, hc, ⟨e, he, hclears, row, hrow, hcount⟩, lock_holds hc (fun row hrow hpos ↦ ?_) htime⟩
  obtain rfl := Option.some.inj (hrow : some _ = some row)
  cases hpos

/-- The last of six concurrent guesses clears the lock the other five have set. -/
theorem burst_clears_lock :
    ¬∀ (cx : Context) (s : Server) (c : AppConfig) (u : Uuid),
      Reachable (machine cx) (handle cx) (fun k ↦ k.logsIn = true) s c → FailuresLock cx u s →
        LockHolds cx u c.world.history := by
  intro h
  let test : AppConfig → Bool := fun c ↦ match c.world.history with
    | e :: earlier => signsIn 1 e earlier && (e.store.db.users.get? 1).any fun row ↦
        row.lockedUntil.any fun lock ↦ decide (e.store.now < lock)
    | [] => false
  obtain ⟨c, hc, htest⟩ : ∃ c, Reachable (machine .sample) (handle .sample)
      (fun k ↦ k.logsIn = true) LockoutSample.start c ∧ test c = true :=
    Reachable.of_schedule LockoutSample.burst test (by decide) (by decide)
  simp only [test] at htest
  split at htest
  next e earlier hhist =>
    simp only [Bool.and_eq_true, decide_eq_true_eq, Option.any_eq_true] at htest
    obtain ⟨hsigns, row, hrow, lock, hlock, hlt⟩ := htest
    have hstart : FailuresLock .sample 1 LockoutSample.start := by
      intro row hrow hpos
      obtain rfl := Option.some.inj (hrow : some _ = some row)
      cases hpos
    exact (h .sample _ c 1 hc hstart).notLocked [] e earlier hhist hsigns
      ⟨row, hrow, lock, hlock, hlt⟩
  next => cases htest

end ApiStarter
