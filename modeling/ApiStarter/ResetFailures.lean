import ApiStarter.Calls
import ApiStarter.Interleave.Solo

/-!
# Failed password resets

A reset redeems its link before anything else, so the link is gone when the new
password turns out to be too weak, when the database fails later on, or when the
request is cut off.  Only a request that fails or ends before the link is
redeemed spares it.
-/

namespace ApiStarter

open Interleave Interleave.Prog Relational

section Resets

variable (cx : Context) (pace : ℕ → ℕ) (down : ℕ → Bool)

/-- A reset, cut off after `n` statements.  Time passes before each of them, and the database
fails for those with a number in `down`. -/
def resetFor (n : ℕ) (raw newPassword : String) (s : Server) :
    Option (Except AppError Response) × Server × ℕ :=
  (handle cx (.resetPassword raw newPassword)).aloneFor ((machine cx).faulty pace down) n (s, 0)

/-- The password of an account, its token version and whether its address is verified. -/
def User.access (u : User) : String × Bool × ℕ × Option Time :=
  (u.passwordHash, u.passwordSet, u.tokenVersion, u.emailVerifiedAt)

def tokenVersionOf (u : Uuid) (users : Table User.id) : Option ℕ :=
  (users.get? u).map User.tokenVersion

/-- The request was answered with an error, or cut off before the password was written, which
would have raised the token version. -/
def resetFails (u : Uuid) (before : Server) : Option (Except AppError Response) × Server × ℕ → Prop
  | (some (.ok _), _) => False
  | (some (.error _), _) => True
  | (none, after, _) => tokenVersionOf u after.db.users = tokenVersionOf u before.db.users

/-- The link can be redeemed as before, and the account is as it was. -/
structure LinkSpared (raw : String) (link : AuthToken) (before after : Server) : Prop where
  kept : after.db.authTokens.get? (cx.sha256 raw) = some link
  account : (after.db.users.get? link.userId).map User.access =
    (before.db.users.get? link.userId).map User.access

/-- The link is not redeemed: its statement does not run, fails or comes too late. -/
def EndsEarly (n : ℕ) (link : AuthToken) (s : Server) : Prop :=
  n = 0 ∨ down 0 = true ∨ link.expiresAt ≤ s.now + pace 0

/-- Nothing goes wrong once the link is redeemed. -/
structure ResetProceeds (n : ℕ) (newPassword : String) (link : AuthToken) (s : Server) :
    Prop where
  account : ∃ row, s.db.users.get? link.userId = some row ∧ row.isLive = true ∧
    row.isActive = true ∧ cx.tooWeak newPassword (row.email :: row.displayName.toList) = none
  unbreached : ¬(cx.checkPasswordBreaches ∧ cx.appearedInBreach newPassword)
  hashed : (cx.argon2 (cx.randomSalt s.draws) newPassword).isSome = true
  /-- The fifth statement writes the password. -/
  written : 5 ≤ n
  /-- The fourth one draws the salt, the others go to the database. -/
  up : ∀ i ∈ [1, 2, 4, 5, 6], i < n → down i = false

end Resets

/-! ## Statements -/

section Statements

variable {cx : Context} {pace : ℕ → ℕ} {down : ℕ → Bool} {m : ℕ} {t : Server × ℕ}

theorem settlesFor_sql {q : Sql} {r : q.Res} {db : Db}
    (hrun : q.run (t.1.now + pace t.2) t.1.db = (some r, db))
    {Q : q.Res → ℕ → Server × ℕ → Prop} {E : AppError → Server × ℕ → Prop} {C : Server × ℕ → Prop}
    (hC : m = 0 → C t)
    (hE : m ≠ 0 → down t.2 = true →
      E .database ({ t.1 with now := t.1.now + pace t.2 }, t.2 + 1))
    (hQ : ∀ m', m = m' + 1 → down t.2 = false →
      Q r m' ({ t.1 with now := t.1.now + pace t.2, db := db }, t.2 + 1)) :
    @SettlesFor _ _ _ _ (no_index q.Res) _ ((machine cx).faulty pace down) (sql q) m Q E C t := by
  apply settlesFor_bind.mpr
  cases m with
  | zero => exact (settlesFor_ask_zero _).mpr (hC rfl)
  | succ m =>
      refine (settlesFor_ask_succ _).mpr ((settlesFor_okOr ..).mpr ?_)
      cases hdown : down t.2 with
      | true =>
          have hexec : ((machine cx).faulty pace down).exec (.sql q) t =
              (none, { t.1 with now := t.1.now + pace t.2 }, t.2 + 1) := by
            simp [Machine.faulty, hdown, machine, Statement.fault]
          rw [hexec]
          exact ⟨fun _ hb ↦ (by cases hb), fun _ ↦ hE (by simp) hdown⟩
      | false =>
          have hexec : ((machine cx).faulty pace down).exec (.sql q) t =
              (some r, { t.1 with now := t.1.now + pace t.2, db := db }, t.2 + 1) := by
            simp [Machine.faulty, Machine.paced, hdown, hrun]
          rw [hexec]
          refine ⟨fun b hb ↦ ?_, fun hb ↦ by cases hb⟩
          obtain rfl : r = b := Option.some.inj hb
          exact hQ m rfl hdown

end Statements

/-! ## One reset -/

section Reset

variable {cx : Context} {pace : ℕ → ℕ} {down : ℕ → Bool} {n : ℕ} {raw newPassword : String}
  {link : AuthToken} {s : Server}

/-- The link with this hash is used up. -/
def Spent (tokenHash : String) (tokens : Table AuthToken.tokenHash) : Prop :=
  ∃ link, tokens.get? tokenHash = some link ∧ link.usedAt.isSome = true

theorem spent_invalidateUnused {tokenHash : String} {tokens : Table AuthToken.tokenHash}
    (h : Spent tokenHash tokens) (now : Time) (u : Uuid) (purpose : TokenPurpose) :
    Spent tokenHash ((AuthTokenSql.invalidateUnused u purpose).run now tokens).2 := by
  obtain ⟨link, hget, hused⟩ := h
  refine ⟨_, AuthTokenSql.get?_invalidateUnused now hget u purpose, ?_⟩
  split
  · rfl
  · exact hused

/-- The link is used up, and `P` holds. -/
def SpentWith (tokenHash : String) (P : Prop) (t : Server × ℕ) : Prop :=
  Spent tokenHash t.1.db.authTokens ∧ P

/-- The link is used up, and the password is written if `P` holds. -/
def SpentAt (tokenHash : String) (u : Uuid) (version : Option ℕ) (P : Prop) (t : Server × ℕ) :
    Prop :=
  Spent tokenHash t.1.db.authTokens ∧ (tokenVersionOf u t.1.db.users = version ↔ ¬P)

section Steps

variable {tokenHash : String} {user : User} {version : Option ℕ} {P : Prop} {m : ℕ}
  {t : Server × ℕ}

theorem tokenVersionOf_markEmailVerified (now : Time) (users : Table User.id) (u id : Uuid) :
    tokenVersionOf u ((UsersSql.markEmailVerified id).run now users).2 =
      tokenVersionOf u users := by
  unfold tokenVersionOf
  cases hget : users.get? u with
  | none =>
      simp only [UsersSql.run]
      rw [Table.get?_updateWhere_none hget]
  | some row =>
      simp only [UsersSql.get?_run hget, UsersSql.onRow]
      split <;> rfl

theorem tokenVersionOf_setPasswordHash (now : Time) {users : Table User.id} {row : User}
    (hrow : users.get? row.id = some row) (hlive : row.isLive = true) (hash : String) :
    tokenVersionOf row.id ((UsersSql.setPasswordHash row.id hash).run now users).2 =
      some (row.tokenVersion + 1) := by
  unfold tokenVersionOf
  rw [UsersSql.get?_run hrow]
  simp [UsersSql.onRow, liveId, hlive]

/-- The statements after the password is written. -/
theorem settlesFor_finish (hspent : Spent tokenHash t.1.db.authTokens)
    (hversion : tokenVersionOf user.id t.1.db.users ≠ version)
    (hP : P ↔ ∀ i ∈ [t.2, t.2 + 1], i < t.2 + m → down i = false) :
    SettlesFor ((machine cx).faulty pace down) (do
        sql (.users (.markEmailVerified user.id))
        OneTimeTokenService.invalidate user.id .passwordReset
        send (.passwordChanged user.email))
      m (fun _ _ ↦ SpentWith tokenHash P) (fun _ ↦ SpentWith tokenHash ¬P)
      (SpentAt tokenHash user.id version P) t := by
  refine settlesFor_bind.mpr (settlesFor_sql rfl ?_ ?_ ?_)
  · rintro rfl
    exact ⟨hspent, by simp [hversion, hP]⟩
  · intro hm hdown
    refine ⟨hspent, fun h ↦ ?_⟩
    simp [hP.mp h t.2 (by simp) (by omega)] at hdown
  rintro m rfl hdown
  have hversion₁ := (tokenVersionOf_markEmailVerified (t.1.now + pace t.2) t.1.db.users
    user.id user.id).trans_ne hversion
  refine settlesFor_bind.mpr (settlesFor_sql rfl ?_ ?_ ?_)
  · rintro rfl
    refine ⟨hspent, ?_⟩
    have : P := hP.mpr (by simp [hdown])
    simpa [this] using hversion₁
  · intro hm hdown'
    refine ⟨hspent, fun h ↦ ?_⟩
    have := hP.mp h (t.2 + 1) (by simp) (by omega)
    simp [this] at hdown'
  rintro m rfl hdown'
  have hp : P := hP.mpr (by simp [hdown, hdown'])
  have hspent₁ := spent_invalidateUnused hspent (t.1.now + pace t.2 + pace (t.2 + 1)) user.id
    .passwordReset
  cases m with
  | zero => exact ⟨hspent₁, by simpa [hp] using hversion₁⟩
  | succ m =>
      apply (settlesFor_ask_succ _).mpr
      rw [Machine.faulty_exec _ rfl]
      exact ⟨hspent₁, hp⟩

/-- The statements from the redeemed link to the new password. -/
theorem settlesFor_setPassword {row : User} (hspent : Spent tokenHash t.1.db.authTokens)
    (hrow : t.1.db.users.get? row.id = some row) (hlive : row.isLive = true) :
    SettlesFor ((machine cx).faulty pace down) (UsersService.setPassword cx row.id newPassword) m
      (fun _ m' t' ↦ Spent tokenHash t'.1.db.authTokens ∧
        tokenVersionOf row.id t'.1.db.users ≠ some row.tokenVersion ∧ m = m' + 3 ∧ t'.2 = t.2 + 3 ∧
        cx.tooWeak newPassword (row.email :: row.displayName.toList) = none ∧
        ¬(cx.checkPasswordBreaches ∧ cx.appearedInBreach newPassword) ∧
        (cx.argon2 (cx.randomSalt t.1.draws) newPassword).isSome = true ∧
        down t.2 = false ∧ down (t.2 + 2) = false)
      (fun _ t' ↦ Spent tokenHash t'.1.db.authTokens ∧
        (cx.tooWeak newPassword (row.email :: row.displayName.toList) = none →
          ¬(cx.checkPasswordBreaches ∧ cx.appearedInBreach newPassword) →
          (cx.argon2 (cx.randomSalt t.1.draws) newPassword).isSome = true →
          2 < m ∧ down (t.2 + 2) = true ∨ 0 < m ∧ down t.2 = true))
      (fun t' ↦ Spent tokenHash t'.1.db.authTokens ∧ t'.1.db.users = t.1.db.users ∧ m ≤ 2) t := by
  have hfind : t.1.db.users.find? (liveId row.id) = some row := by
    rw [find?_liveId, hrow, Option.filter_some, if_pos hlive]
  refine settlesFor_bind.mpr (settlesFor_bind.mpr (settlesFor_sql rfl ?_ ?_ ?_))
  · rintro rfl
    exact ⟨hspent, rfl, by omega⟩
  · exact fun hm hdown ↦ ⟨hspent, fun _ _ _ ↦ .inr ⟨by omega, hdown⟩⟩
  rintro m rfl hdown
  rw [hfind]
  refine (settlesFor_okOr ..).mpr ⟨fun account haccount ↦ ?_, nofun⟩
  obtain rfl : row = account := Option.some.inj haccount
  apply settlesFor_bind.mpr
  unfold UsersService.rejectPasswordIfPolicyViolation
  cases hweak : cx.tooWeak newPassword (row.email :: row.displayName.toList) with
  | some feedback => exact (settlesFor_fail _).mpr ⟨hspent, by simp⟩
  | none =>
      refine (settlesFor_ensure ..).mpr ⟨fun hunbreached ↦ ?_, fun hbreached ↦ ?_⟩
      swap
      · exact ⟨hspent, fun _ h ↦ absurd h hbreached⟩
      refine settlesFor_bind.mpr (settlesFor_bind.mpr ?_)
      cases m with
      | zero => exact ⟨hspent, rfl, by omega⟩
      | succ m =>
          apply (settlesFor_ask_succ _).mpr
          rw [Machine.faulty_exec _ rfl]
          refine (settlesFor_okOr ..).mpr ⟨fun hash hhash ↦ ?_, fun hnone ↦ ?_⟩
          swap
          · exact ⟨hspent, fun _ _ hsome ↦ by simp_all [machine, Machine.paced, Statement.exec]⟩
          refine settlesFor_sql rfl ?_ ?_ ?_
          · rintro rfl
            exact ⟨hspent, rfl, by omega⟩
          · exact fun hm hdown' ↦ ⟨hspent, fun _ _ _ ↦ .inl ⟨by omega, hdown'⟩⟩
          rintro m rfl hdown'
          refine ⟨hspent, ?_, rfl, rfl, rfl, hunbreached, ?_, hdown, hdown'⟩
          · exact (tokenVersionOf_setPasswordHash _ hrow hlive _).trans_ne (by simp)
          · exact Option.isSome_iff_exists.mpr ⟨hash, hhash⟩

end Steps

/-- After its link is redeemed, a reset goes through exactly when nothing goes wrong. -/
theorem settlesFor_reset (hlink : s.db.authTokens.get? (cx.sha256 raw) = some link)
    (hvalid : link.isRedeemable .passwordReset (s.now + pace 0) = true) (hn : n ≠ 0)
    (hup : down 0 = false) :
    SettlesFor ((machine cx).faulty pace down) (handle cx (.resetPassword raw newPassword)) n
      (fun _ _ ↦ SpentWith (cx.sha256 raw) (ResetProceeds cx down n newPassword link s))
      (fun _ ↦ SpentWith (cx.sha256 raw) ¬ResetProceeds cx down n newPassword link s)
      (SpentAt (cx.sha256 raw) link.userId (tokenVersionOf link.userId s.db.users)
        (ResetProceeds cx down n newPassword link s)) (s, 0) := by
  let valid := fun t : AuthToken ↦
    decide (t.tokenHash = cx.sha256 raw) && t.isRedeemable .passwordReset (s.now + pace 0)
  have hfind : s.db.authTokens.find? valid = some link := by
    rw [Table.find?_key, hlink, Option.filter_some, if_pos hvalid]
  have hspent : Spent (cx.sha256 raw) (s.db.authTokens.updateWhere valid
      (AuthToken.markUsed (s.now + pace 0)) (AuthToken.tokenHash_markUsed _)) := by
    refine ⟨link.markUsed (s.now + pace 0), ?_, rfl⟩
    rw [Table.get?_updateWhere_some hlink, if_pos]
    simp [valid, Table.key_of_get? hlink, hvalid]
  refine settlesFor_bind.mpr (settlesFor_bind.mpr (settlesFor_bind.mpr
    (settlesFor_sql rfl ?_ ?_ ?_)))
  · exact fun h ↦ absurd h hn
  · exact fun _ h ↦ absurd (hup.symm.trans h) (by decide)
  rintro m rfl -
  refine (settlesFor_okOr ..).mpr ⟨fun token htoken ↦ ?_, fun hnone ↦ ?_⟩
  swap
  · exact absurd hnone (by simp [valid, hfind])
  obtain rfl : link.markUsed (s.now + pace 0) = token := by
    simpa [valid, hfind] using htoken
  refine settlesFor_bind.mpr (settlesFor_sql rfl ?_ ?_ ?_)
  · rintro rfl
    exact ⟨hspent, iff_of_true rfl fun h ↦ absurd h.written (by decide)⟩
  · intro hm hdown
    refine ⟨hspent, fun h ↦ ?_⟩
    simp [h.up 1 (by simp) (by omega)] at hdown
  rintro m rfl hdown
  refine settlesFor_bind.mpr ((settlesFor_okOr ..).mpr ⟨fun user huser ↦ ?_, fun hnone ↦ ?_⟩)
  swap
  · -- no live and active account belongs to the link
    refine ⟨hspent, fun h ↦ ?_⟩
    obtain ⟨row, hrow, hlive, hactive, -⟩ := h.account
    rw [find?_liveId] at hnone
    simp [AuthToken.markUsed, hrow, hlive, hactive] at hnone
  obtain ⟨hfound, hactive⟩ := Option.filter_eq_some_iff.mp huser
  obtain ⟨hrow, hid, hlive⟩ := find?_liveId_eq_some hfound
  have hid : user.id = link.userId := hid
  have hrow' : s.db.users.get? link.userId = some user := hrow
  have huser' : s.db.users.get? user.id = some user := hid ▸ hrow'
  rw [← hid]
  refine settlesFor_bind.mpr ((settlesFor_setPassword hspent huser' hlive).mono ?_ ?_ ?_)
  · rintro - m' t' ⟨hspent', hversion, rfl, hcount, hstrong, hunbreached, hhashed, hup₂, hup₄⟩
    have hcount : t'.2 = 5 := hcount
    have hwritten : tokenVersionOf user.id s.db.users = some user.tokenVersion := by
      rw [tokenVersionOf, huser', Option.map_some]
    apply settlesFor_finish hspent' (hversion.trans_eq hwritten.symm)
    rw [hcount]
    refine ⟨fun h i hi ↦ ?_, fun h ↦ ?_⟩
    · simp only [List.mem_cons, List.not_mem_nil, or_false] at hi
      exact fun hlt ↦ h.up i (by simp; omega) (by omega)
    · refine ⟨⟨user, hrow', hlive, hactive, hstrong⟩, hunbreached, hhashed, by omega, ?_⟩
      intro i hi hlt
      simp only [List.mem_cons, List.not_mem_nil, or_false] at hi
      rcases hi with rfl | rfl | rfl | rfl | rfl
      · exact hdown
      · exact hup₂
      · exact hup₄
      · exact h 5 (by simp) (by omega)
      · exact h 6 (by simp) (by omega)
  · rintro e t' ⟨hspent', hwhy⟩
    refine ⟨hspent', fun h ↦ ?_⟩
    obtain ⟨row, hget, -, -, hstrong⟩ := h.account
    obtain rfl : user = row := Option.some.inj (hrow'.symm.trans hget)
    rcases hwhy hstrong h.unbreached h.hashed with ⟨hm, hdown'⟩ | ⟨hm, hdown'⟩
    · exact absurd ((h.up 4 (by simp) (by omega)).symm.trans hdown') (by decide)
    · exact absurd ((h.up 2 (by simp) (by omega)).symm.trans hdown') (by decide)
  · rintro t' ⟨hspent', hsame, hm⟩
    refine ⟨hspent', iff_of_true (congrArg _ hsame) fun h ↦ ?_⟩
    have := h.written
    omega

/-- A reset that ends before its link is redeemed leaves everything as it was. -/
theorem linkSpared_of_early (hlink : s.db.authTokens.get? (cx.sha256 raw) = some link)
    (hearly : EndsEarly pace down n link s) :
    LinkSpared cx raw link s (resetFor cx pace down n raw newPassword s).2.1 := by
  have hsettles : SettlesFor ((machine cx).faulty pace down)
      (handle cx (.resetPassword raw newPassword)) n
      (fun _ _ t' ↦ LinkSpared cx raw link s t'.1) (fun _ t' ↦ LinkSpared cx raw link s t'.1)
      (fun t' ↦ LinkSpared cx raw link s t'.1) (s, 0) := by
    refine settlesFor_bind.mpr (settlesFor_bind.mpr (settlesFor_bind.mpr
      (settlesFor_sql rfl (fun _ ↦ ⟨hlink, rfl⟩) (fun _ _ ↦ ⟨hlink, rfl⟩) ?_)))
    intro m hm hup
    have hlate : link.expiresAt ≤ s.now + pace 0 := by
      rcases hearly with rfl | hdown | hlate
      · omega
      · exact absurd (hup.symm.trans hdown) (by decide)
      · exact hlate
    have hover : link.isRedeemable .passwordReset (s.now + pace 0) = false := by
      simp [AuthToken.isRedeemable, hlate]
    have hnone : (s.db.authTokens.find? fun t ↦ decide (t.tokenHash = cx.sha256 raw) &&
        t.isRedeemable .passwordReset (s.now + pace 0)) = none := by
      rw [Table.find?_key, hlink, Option.filter_some, if_neg (by simp [hover])]
    refine (settlesFor_okOr ..).mpr ⟨fun token htoken ↦ ?_, fun _ ↦ ⟨?_, rfl⟩⟩
    · simp [hnone] at htoken
    · rw [AuthTokenSql.run, Table.get?_updateWhere_some hlink, if_neg (by simp [hover])]
  obtain ⟨hok, herror, hcut⟩ := hsettles.aloneFor
  cases hrun : resetFor cx pace down n raw newPassword s with
  | mk outcome t' =>
      rcases outcome with - | e | response
      · exact hcut t' hrun
      · exact herror e t' hrun
      · exact (hok response t' hrun).choose_spec

/-- A reset with a valid link that fails, or is cut off before the password is written, spares
the link exactly when it ends before the link is redeemed. -/
theorem failed_reset_spares_link (hlink : s.db.authTokens.get? (cx.sha256 raw) = some link)
    (hvalid : link.isRedeemable .passwordReset s.now = true) :
    (resetFails link.userId s (resetFor cx pace down n raw newPassword s) →
      LinkSpared cx raw link s (resetFor cx pace down n raw newPassword s).2.1) ↔
        EndsEarly pace down n link s ∨ ResetProceeds cx down n newPassword link s := by
  by_cases hearly : EndsEarly pace down n link s
  · exact iff_of_true (fun _ ↦ linkSpared_of_early hlink hearly) (.inl hearly)
  have hn : n ≠ 0 := fun h ↦ hearly (.inl h)
  have hup : down 0 = false := by simpa using fun h ↦ hearly (.inr (.inl h))
  have hlasts : s.now + pace 0 < link.expiresAt := not_le.mp fun h ↦ hearly (.inr (.inr h))
  have hvalid' : link.isRedeemable .passwordReset (s.now + pace 0) = true := by
    simp_all [AuthToken.isRedeemable]
  have hunused : link.usedAt = none := by
    simp_all [AuthToken.isRedeemable]
  have hspares {t' : Server} (hspent : Spent (cx.sha256 raw) t'.db.authTokens) :
      ¬LinkSpared cx raw link s t' := by
    rintro ⟨hkept, -⟩
    obtain ⟨link', hget, hused⟩ := hspent
    simp [← Option.some.inj (hkept.symm.trans hget), hunused] at hused
  obtain ⟨hok, herror, hcut⟩ :=
    (@settlesFor_reset _ pace _ _ _ newPassword _ _ hlink hvalid' hn hup).aloneFor
  cases hrun : resetFor cx pace down n raw newPassword s with
  | mk outcome t' =>
      rcases outcome with - | e | response
      · obtain ⟨hspent, hwritten⟩ := hcut t' hrun
        simpa [resetFails, hspares hspent, hearly] using not_iff_comm.mp hwritten.symm
      · obtain ⟨hspent, hwrong⟩ := herror e t' hrun
        simpa [resetFails, hspares hspent, hearly] using hwrong
      · obtain ⟨_, -, hproceeds⟩ := hok response t' hrun
        exact iff_of_true False.elim (.inr hproceeds)

end Reset

namespace ResetSample

open Sample

/-- The link of ada's account, good for an hour. -/
def link : AuthToken :=
  ⟨1, .passwordReset, Context.sample.sha256 "raw", none, Time.hours 1, none, 0⟩

def start : Server :=
  { server (.single (account 1 "ada@example.com" .user)) with
    db.authTokens := .single link }

/-- A policy that refuses the password `password123`, which is long enough for the request. -/
def strict : Context :=
  { Context.sample with
    tooWeak := fun password _ ↦
      if password = "password123" then some "This password is too easy to guess." else none }

end ResetSample

/-- The database fails when the link is to be redeemed. -/
theorem failed_reset_spares_link_down :
    LinkSpared .sample "raw" ResetSample.link ResetSample.start
      (resetFor .sample (fun _ ↦ 1) (fun i ↦ i == 0) 8 "raw" "another-horse"
        ResetSample.start).2.1 :=
  have hlink : ResetSample.start.db.authTokens.get? (Context.sample.sha256 "raw") =
      some ResetSample.link := rfl
  (failed_reset_spares_link hlink (by decide)).mpr (.inl (.inr (.inl rfl))) trivial

/-- The link is used up by a password that the policy refuses. -/
theorem weak_password_spends_link :
    resetFails 1 ResetSample.start
      (resetFor ResetSample.strict (fun _ ↦ 1) (fun _ ↦ false) 8 "raw" "password123"
      ResetSample.start) ∧
    ¬LinkSpared ResetSample.strict "raw" ResetSample.link ResetSample.start
      (resetFor ResetSample.strict (fun _ ↦ 1) (fun _ ↦ false) 8 "raw" "password123"
        ResetSample.start).2.1 := by
  refine ⟨trivial, fun h ↦ ?_⟩
  have hused : ((resetFor ResetSample.strict (fun _ ↦ 1) (fun _ ↦ false) 8 "raw" "password123"
      ResetSample.start).2.1.db.authTokens.get? (ResetSample.strict.sha256 "raw")).map
        AuthToken.usedAt = some (some 1) := by decide
  simp [h.kept, ResetSample.link] at hused

end ApiStarter
