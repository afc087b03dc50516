import ApiStarter.Calls

/-!
# The secret behind two-factor

`totp_secret` and `totp_enabled` are written by three statements, each guarded
by an earlier read.  As long as no setup starts over on an enabled account and
none slips between a confirmation's read and its write, an enabled account
signs in with a secret whose code was accepted.
-/

namespace ApiStarter

open Interleave Interleave.Prog Relational

/-- Two-factor is enforced for `u`. -/
def twoFactorOn (u : Uuid) (s : Server) : Bool := (s.db.users.get? u).any User.totpEnabled

def totpSecretOf (u : Uuid) (s : Server) : Option String :=
  (s.db.users.get? u).bind User.totpSecret

/-- `confirm_setup` of the account `u` accepted a code for `secret`. -/
def acceptsCode (cx : Context) (u : Uuid) (secret : String) : AppEvent → Bool
  | .ran _ (.twoFactorEnable (.bearer claims) _) (.verifyCode tried email code) before =>
      decide (claims.sub = u) && decide (tried = secret) && cx.checkTotp tried email code before.now
  | _ => false

def turnsTwoFactorOff (u : Uuid) : AppEvent → Bool
  | .ran _ _ (.sql (.users (.disableTotp id))) before => decide (id = u) && twoFactorOn u before
  | _ => false

/-- If two-factor is on, its secret is there and `confirm_setup` accepted a code for it
since two-factor was last turned off. -/
def SecretConfirmed (cx : Context) (u : Uuid) (W : AppWorld) : Prop :=
  ∀ row, W.store.db.users.get? u = some row → row.totpEnabled = true →
    ∃ secret later e earlier, row.totpSecret = some secret ∧
      W.history = later ++ e :: earlier ∧ acceptsCode cx u secret e = true ∧
        ∀ x ∈ later, turnsTwoFactorOff u x = false

/-! ## One statement -/

def writesSecret (u : Uuid) : AppEvent → Bool
  | .ran _ _ (.sql (.users (.setPendingTotpSecret id _))) _ => decide (id = u)
  | .ran _ _ (.sql (.users (.disableTotp id))) _ => decide (id = u)
  | _ => false

theorem eq_enableTotp_of_rises {cx : Context} {u : Uuid} {q : Statement} {s : Server}
    (h : Rises (machine cx) (fun s ↦ twoFactorOn u s = true) q s) :
    q = .sql (.users (.enableTotp u)) := by
  obtain ⟨hoff, hon⟩ := h
  cases q with
  | sql q =>
      cases q with
      | users q =>
          simp only [exec_sql, Sql.run, twoFactorOn, Option.any_eq_true] at hon hoff
          obtain ⟨row', hget', hon⟩ := hon
          cases hget : s.db.users.get? u with
          | none =>
              obtain ⟨new, -, rfl⟩ := UsersSql.get?_run_none hget hget'
              cases hon
          | some row =>
              have hrow : row.totpEnabled = false := by simpa [hget] using hoff
              have hid : row.id = u := Table.key_of_get? hget
              rw [UsersSql.get?_run hget q, Option.some.injEq] at hget'
              subst hget'
              cases q with
              | enableTotp id =>
                  by_cases h : row.id = id
                  · rw [← h, hid]
                  · simp [UsersSql.onRow, h, hrow] at hon
              | _ =>
                  simp only [UsersSql.onRow] at hon
                  repeat' split at hon
                  all_goals simp
                    [UserPatch.apply, User.markDeleted, User.withFailedLogin, hrow] at hon
      | _ => exact absurd hon hoff
  | _ => exact absurd hon hoff

/-- Nothing but a setup or a disabling touches the secret. -/
theorem totpSecretOf_exec {cx : Context} {u : Uuid} {secret : String} {i : ℕ} {k : Request}
    {q : Statement} {s : Server} (hq : writesSecret u (.ran i k q s) = false)
    (h : totpSecretOf u s = some secret) :
    totpSecretOf u ((machine cx).exec q s).2 = some secret := by
  cases q with
  | sql q =>
      cases q with
      | users q =>
          obtain ⟨row, hget, hrow⟩ := Option.bind_eq_some_iff.mp h
          have hid : row.id = u := Table.key_of_get? hget
          simp only [exec_sql, Sql.run, totpSecretOf, UsersSql.get?_run hget q, Option.bind_some]
          cases q with
          | setPendingTotpSecret id new =>
              have hne : row.id ≠ id := by simpa [writesSecret, hid, eq_comm] using hq
              simpa [UsersSql.onRow, hne] using hrow
          | disableTotp id =>
              have hne : row.id ≠ id := by simpa [writesSecret, hid, eq_comm] using hq
              simpa [UsersSql.onRow, hne] using hrow
          | _ =>
              simp only [UsersSql.onRow]
              repeat' split
              all_goals exact hrow
      | _ => exact h
  | _ => exact h

theorem ends_of_disableTotp {cx : Context} {u : Uuid} {s : Server} :
    Ends (machine cx) (fun s ↦ twoFactorOn u s = true) (.sql (.users (.disableTotp u))) s := by
  simp only [Ends, exec_sql, Sql.run, twoFactorOn]
  cases hget : s.db.users.get? u with
  | none =>
      have hnone : (((UsersSql.disableTotp u).run s.now s.db.users).2).get? u = none := by
        simp only [UsersSql.run]
        rw [Table.get?_updateWhere_none hget]
      simp [hnone]
  | some row =>
      have hid : row.id = u := Table.key_of_get? hget
      simp [UsersSql.get?_run hget, UsersSql.onRow, hid]

/-! ## One confirmation -/

/-- `enable_totp` follows a read of the account and a code accepted for the secret read. -/
def EnablesWhatItRead (cx : Context) : AppEvent → List AppEvent → Prop
  | .ran i _ (.sql (.users (.enableTotp u))) _, earlier =>
      ∃ secret newer read older, earlier = newer ++ read :: older ∧ readsAccount i u read = true ∧
        totpSecretOf u read.store = some secret ∧ (∃ e ∈ newer, acceptsCode cx u secret e = true) ∧
          ∀ e ∈ newer, readsAccount i u e = false
  | _, _ => True

section

variable {cx : Context}

theorem enablesWhatItRead_of_ne {q : Statement} (hq : ∀ u, q ≠ .sql (.users (.enableTotp u)))
    (i : ℕ) (k : Request) (b : Server) (h : List AppEvent) :
      EnablesWhatItRead cx (.ran i k q b) h := by
  unfold EnablesWhatItRead
  split
  next heq =>
    cases heq
    exact absurd rfl (hq _)
  · trivial

/-- Between its read and its write a confirmation saw a code accepted for what it read. -/
theorem handles_twoFactorEnable (caller : Presented) (code : String) :
    Handles (machine cx) (.along (EnablesWhatItRead cx)) (.twoFactorEnable caller code)
      (handle cx) := by
  let D : AppDiscipline := .along (EnablesWhatItRead cx)
  have harmless : ∀ q : Statement, (∀ u, q ≠ .sql (.users (.enableTotp u))) → ∀ i k W, D.Inv W →
      D.Keeps W (W.ran (machine cx) i k q) := fun q hq i k W hW ↦
    Discipline.keeps_along_ran.mpr ⟨enablesWhatItRead_of_ne hq i k _ _, hW⟩
  have hquiet : Quiet cx D := fun q hq ↦ harmless q (by rintro u rfl; simp at hq)
  have answers : ∀ (a : Except AppError Response) (i : ℕ) (W : AppWorld), D.Inv W →
      Answers D i (.twoFactorEnable caller code) a W := fun a i W _ W' hW' ↦
    Discipline.keeps_along_answered.mpr ⟨trivial, hW'.inv⟩
  intro i W hW _
  refine wp_bind.mpr (wp_sessionUser hquiet (fun e W ↦ answers _ i W) hW
    fun claims W₁ _ hcaller _ _ _ hW₁ ↦ wp_bind.mpr ?_)
  subst hcaller
  refine wp_bind.mpr (wp_findUser (fun e W ↦ answers _ i W) hquiet
    fun W₂ u _ hget hid _ _ hInv ↦ ?_)
  refine wp_bind.mpr (wp_check (fun e W ↦ answers _ i W) hInv fun _ ↦ ?_)
  refine wp_bind.mpr (wp_unwrap (fun e W ↦ answers _ i W) hInv fun secret hsecret ↦ ?_)
  refine wp_bind.mpr ((wp_ask _).mpr fun W₃ h₃ ↦ ⟨?_, by rintro _ ⟨⟩⟩)
  have hkeep := harmless (.verifyCode secret u.email code) (by simp) i
    (.twoFactorEnable (.bearer claims) code) W₃ h₃.inv
  refine ⟨hkeep, wp_bind.mpr (wp_check (fun e W ↦ answers _ i W) hkeep.1 fun haccepted ↦ ?_)⟩
  refine wp_bind.mpr (wp_sql (fun e W ↦ answers _ i W) (fun W₄ h₄ ↦ ?_) fun W₄ _ h₄ _ hInv ↦ ?_)
  · refine Discipline.keeps_along_ran.mpr ⟨?_, h₄.inv⟩
    obtain ⟨new₃, hnew₃, hother₃⟩ := h₃.others
    obtain ⟨new₄, hnew₄, hother₄⟩ := h₄.others
    refine ⟨secret, new₄ ++ .ran i (.twoFactorEnable (.bearer claims) code)
        (.verifyCode secret u.email code) W₃.store :: new₃,
      .ran i (.twoFactorEnable (.bearer claims) code) (.sql (.users (.findById claims.sub)))
        W₂.store,
      W₂.history, by simp [hnew₄, hnew₃], ?_, ?_, ?_, ?_⟩
    · simp [readsAccount, hid]
    · simp [totpSecretOf, hid, hget, hsecret]
    · exact ⟨.ran i (.twoFactorEnable (.bearer claims) code)
        (.verifyCode secret u.email code) W₃.store,
        by simp, by simpa [acceptsCode, hid] using haccepted⟩
    · intro e he
      simp only [List.mem_append, List.mem_cons] at he
      rcases he with he | rfl | he
      · exact readsAccount_of_tid_ne (hother₄ e he)
      · rfl
      · exact readsAccount_of_tid_ne (hother₃ e he)
  · refine wp_of_only (S := fun q ↦ ∀ u, q ≠ .sql (.users (.enableTotp u))) ?_
      (returns_true _) (fun q hq W hW ↦ harmless q hq i _ W hW) (fun _ W _ ↦ answers _ i W)
      (fun _ W ↦ answers _ i W) hInv
    simp

/-- Only a confirmation turns two-factor on. -/
theorem handle_never_enables {k : Request} (hk : ∀ caller code, k ≠ .twoFactorEnable caller code) :
    (handle cx k).Only fun q ↦ ∀ u, q ≠ .sql (.users (.enableTotp u)) := by
  have hNone : ∀ q : Statement, q.effect = .none → ∀ u, q ≠ .sql (.users (.enableTotp u)) := by
    rintro q hq u rfl
    simp at hq
  by_cases htotp : Effect.totp ∈ k.effects
  · cases k with
    | twoFactorEnable caller code => exact absurd rfl (hk caller code)
    | twoFactorSetup caller =>
        refine .bind (only_sessionUser hNone _ _) fun _ ↦ .bind ?_ fun _ ↦ trivial
        exact .bind (by simp [TotpService.requireActiveUser]) fun _ ↦ by simp
    | twoFactorDisable caller password =>
        refine .bind (only_sessionUser hNone _ _) fun _ ↦ .bind ?_ fun _ ↦ trivial
        exact .bind (by simp [TotpService.requireActiveUser]) fun _ ↦ by simp
    | _ => simp at htotp
  · apply handle_only k
    rintro _ hq u rfl
    exact htotp (by simpa using hq)

theorem handles_enablesWhatItRead (k : Request) :
    Handles (machine cx) (.along (EnablesWhatItRead cx)) k (handle cx) := by
  by_cases hk : ∃ caller code, k = .twoFactorEnable caller code
  · obtain ⟨caller, code, rfl⟩ := hk
    exact handles_twoFactorEnable caller code
  · simp only [not_exists] at hk
    exact .along_of_only (handle_never_enables hk)
      (fun q hq i b h ↦ enablesWhatItRead_of_ne hq i k b h) fun _ _ _ _ ↦ trivial

end

/-! ## All runs -/

/-- A setup starts over only while two-factor is off, and nothing wrote the secret since
the confirmation that turns it on has read it. -/
def confirmsInPeace (u : Uuid) : AppEvent → List AppEvent → Bool
  | .ran _ _ (.sql (.users (.setPendingTotpSecret id _))) before, _ =>
      decide (id ≠ u) || !twoFactorOn u before
  | .ran i _ (.sql (.users (.enableTotp id))) before, earlier =>
      decide (id ≠ u) || twoFactorOn u before ||
        (earlier.takeWhile fun e ↦ !readsAccount i u e).all fun e ↦ !writesSecret u e
  | _, _ => true

theorem not_writesSecret_of_on {cx : Context} {u : Uuid} {e : AppEvent} {earlier : List AppEvent}
    (hpeace : confirmsInPeace u e earlier = true) (hon : twoFactorOn u e.store = true)
    (hend : ¬e.Ran (Ends (machine cx) fun s ↦ twoFactorOn u s = true)) :
    writesSecret u e = false := by
  unfold writesSecret
  split
  next id secret b =>
    apply decide_eq_false
    rintro rfl
    simp [confirmsInPeace, show twoFactorOn id b = true from hon] at hpeace
  next id b =>
    apply decide_eq_false
    rintro rfl
    exact hend ends_of_disableTotp
  next => rfl

theorem writesSecret_of_turnsOff {u : Uuid} {e : AppEvent} (h : turnsTwoFactorOff u e = true) :
    writesSecret u e = true := by
  unfold turnsTwoFactorOff at h
  split at h
  · exact ((Bool.and_eq_true _ _).mp h).1
  · cases h

theorem takeWhile_newer {i : ℕ} {u : Uuid} {newer older : List AppEvent} {read : AppEvent}
    (hread : readsAccount i u read = true) (hnewer : ∀ e ∈ newer, readsAccount i u e = false) :
    (newer ++ read :: older).takeWhile (fun e ↦ !readsAccount i u e) = newer := by
  rw [List.takeWhile_append_of_pos fun e he ↦ by simp [hnewer e he]]
  simp [hread]

theorem secret_confirmed {cx : Context} {s : Server} {c : AppConfig} {u : Uuid}
    (hc : Reached cx s c) (hoff : twoFactorOn u s = false)
    (hpeace : Along (fun e earlier ↦ confirmsInPeace u e earlier = true) c.world.history) :
    SecretConfirmed cx u c.world := by
  intro row hrow hon
  -- the moment two-factor was turned on, after which it stayed on
  obtain ⟨mid, e, earlier, hhist, hrise, hmid⟩ :=
    hc.rises_of_live (fun s ↦ twoFactorOn u s = true) (fun _ _ ↦ Iff.rfl) (by simp [hoff])
      (by simp [twoFactorOn, hrow, hon])
  cases e with
  | answered i k a b => exact hrise.elim
  | ran i k q b =>
      obtain rfl := eq_enableTotp_of_rises hrise
      have hlocal := Along.of_append
        (hhist ▸ hc.along (P := EnablesWhatItRead cx) fun k _ ↦ handles_enablesWhatItRead k)
      obtain ⟨secret, newer, read, older, rfl, hread, hsecret,
        ⟨accept, haccept, haccepts⟩, hnewer⟩ :=
        hlocal
      have hundisturbed : ∀ x ∈ newer, writesSecret u x = false := by
        have h := Along.of_append (hhist ▸ hpeace)
        have hbefore : twoFactorOn u b = false := by simpa using hrise.1
        simpa [confirmsInPeace, hbefore, takeWhile_newer hread hnewer] using h
      have hkept : ∀ x ∈ mid, writesSecret u x = false := by
        intro x hx
        obtain ⟨hlive, hend⟩ := hmid x hx
        obtain ⟨_, _, -, hx⟩ := hpeace.of_mem (hhist ▸ List.mem_append_left _ hx)
        exact not_writesSecret_of_on hx hlive hend
      have hwrites : ∀ x ∈ read :: (mid ++ .ran i k (.sql (.users (.enableTotp u))) b :: newer),
          writesSecret u x = false := by
        intro x hx
        simp only [List.mem_cons, List.mem_append] at hx
        rcases hx with rfl | hx | rfl | hx
        · unfold readsAccount at hread
          split at hread
          · rfl
          · cases hread
        · exact hkept x hx
        · rfl
        · exact hundisturbed x hx
      have hsecret' : totpSecretOf u c.world.store = some secret := by
        have hsplit : c.world.history =
            (mid ++ .ran i k (.sql (.users (.enableTotp u))) b :: newer) ++ read :: older := by
          simp [hhist]
        refine hc.live_of_kept (fun s ↦ totpSecretOf u s = some secret) (fun _ _ ↦ Iff.rfl)
          hsplit hsecret fun x hx hlive hend ↦ ?_
        cases x with
        | answered i k a b => exact hend
        | ran i k q b => exact hend (totpSecretOf_exec (hwrites _ hx) hlive)
      obtain ⟨after, before, rfl⟩ := List.append_of_mem haccept
      refine ⟨secret, mid ++ .ran i k (.sql (.users (.enableTotp u))) b :: after, accept,
        before ++ read :: older, by simpa [totpSecretOf, hrow] using hsecret',
        by simp [hhist], haccepts, fun x hx ↦ ?_⟩
      cases hoff : turnsTwoFactorOff u x with
      | false => rfl
      | true =>
          have hmem : x ∈ read :: (mid ++ .ran i k (.sql (.users (.enableTotp u))) b ::
              (after ++ accept :: before)) := by
            simp only [List.mem_cons, List.mem_append] at hx ⊢
            tauto
          exact absurd (writesSecret_of_turnsOff hoff) (by simp [hwrites x hmem])

/-! ## A setup started over on an enabled account -/

def Request.changesTwoFactor : Request → Bool
  | .twoFactorSetup _ | .twoFactorEnable .. | .twoFactorDisable .. => true
  | _ => false

namespace RestartedSetup

open Sample

def start : Server := server (.single (account 1 "ada@example.com" .user))

/-- Ada enrols. -/
def enrolment : List (Action Request ℕ) :=
  alone 0 (.twoFactorSetup (bearer 1 .user)) 5 ++
    alone 1 (.twoFactorEnable (bearer 1 .user) "100000") 8

/-- Then she starts a setup again. -/
def schedule : List (Action Request ℕ) :=
  enrolment ++ alone 2 (.twoFactorSetup (bearer 1 .user)) 5

end RestartedSetup

theorem secret_confirmed_enrolment :
    ∃ c, Reached .sample RestartedSetup.start c ∧ twoFactorOn 1 c.world.store = true ∧
      SecretConfirmed .sample 1 c.world := by
  obtain ⟨c, hc, htest⟩ : ∃ c, Reached .sample RestartedSetup.start c ∧
      (twoFactorOn 1 c.world.store &&
        decide (Along (fun e earlier ↦ confirmsInPeace 1 e earlier = true) c.world.history)) =
          true :=
    Reachable.of_schedule RestartedSetup.enrolment
      (fun c : AppConfig ↦ twoFactorOn 1 c.world.store &&
        decide (Along (fun e earlier ↦ confirmsInPeace 1 e earlier = true) c.world.history))
      (by decide) (by decide)
  rw [Bool.and_eq_true, decide_eq_true_eq] at htest
  exact ⟨c, hc, htest.1, secret_confirmed hc (by decide) htest.2⟩

/-- The secret of an enabled account can be one for which no code was ever accepted. -/
theorem enabled_secret_can_be_replaced :
    ¬∀ (cx : Context) (s : Server) (c : AppConfig) (u : Uuid),
      Reachable (machine cx) (handle cx) (fun k ↦ k.changesTwoFactor = true) s c →
        twoFactorOn u s = false → SecretConfirmed cx u c.world := by
  intro h
  let test : AppConfig → Bool := fun c ↦
    (c.world.store.db.users.get? 1).any fun row ↦ row.totpEnabled && row.totpSecret.all fun secret ↦
      c.world.history.all fun e ↦ !acceptsCode .sample 1 secret e
  obtain ⟨c, hc, htest⟩ : ∃ c, Reachable (machine .sample) (handle .sample)
      (fun k ↦ k.changesTwoFactor = true) RestartedSetup.start c ∧ test c = true :=
    Reachable.of_schedule RestartedSetup.schedule test (by decide) (by decide)
  obtain ⟨row, hrow, hboth⟩ := Option.any_eq_true _ _ |>.mp htest
  rw [Bool.and_eq_true] at hboth
  obtain ⟨secret, later, e, earlier, hsecret, hhist, haccepts, -⟩ :=
    h .sample _ c 1 hc (by decide) row hrow hboth.1
  have hnone : ∀ e ∈ c.world.history, acceptsCode .sample 1 secret e = false := by
    simpa [hsecret] using hboth.2
  simp [hnone e (by simp [hhist])] at haccepts

end ApiStarter
