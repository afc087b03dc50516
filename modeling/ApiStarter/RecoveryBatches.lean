import ApiStarter.Identities
import ApiStarter.TwoFactor

/-!
# Batches of recovery codes

A confirmation checks that two-factor is off, turns it on, and replaces the codes
in a transaction that commits some time after its `DELETE`; a disabling turns it
off and deletes the codes, in two statements.  The codes shown to the user hold
as long as no confirmation acts on a check that is out of date, no late statement
takes away or adds to the codes of a newer enrolment, no other batch is committed
while the codes are being replaced, and no confirmation gets stuck half way.
-/

namespace ApiStarter

open Interleave Interleave.Prog Relational

/-! ## Enrolments -/

def isEnabling : AppEvent → Bool
  | .ran _ _ (.sql (.users (.enableTotp _))) _ => true
  | _ => false

def enablesTwoFactor (u : Uuid) : AppEvent → Bool
  | .ran _ _ (.sql (.users (.enableTotp id))) _ => decide (id = u)
  | _ => false

def disablesTwoFactor (u : Uuid) : AppEvent → Bool
  | .ran _ _ (.sql (.users (.disableTotp id))) _ => decide (id = u)
  | _ => false

/-- The transaction begins that replaces the codes. -/
def locksCodes (u : Uuid) : AppEvent → Bool
  | .ran _ _ (.sql (.recoveryCodes (.lockAll id))) _ => decide (id = u)
  | _ => false

/-- It commits. -/
def storesCodes (u : Uuid) : AppEvent → Bool
  | .ran _ _ (.sql (.recoveryCodes (.replaceAll id ..))) _ => decide (id = u)
  | _ => false

/-- The stored codes are no longer those that were stored before. -/
def removesCodes (u : Uuid) : AppEvent → Bool
  | .ran _ _ (.sql (.recoveryCodes (.replaceAll id ..))) _ => decide (id = u)
  | .ran _ _ (.sql (.recoveryCodes (.deleteAll id))) _ => decide (id = u)
  | _ => false

def usesCode (u : Uuid) (hash : String) : AppEvent → Bool
  | .ran _ _ (.sql (.recoveryCodes (.claim id h))) _ => decide (id = u) && decide (h = hash)
  | _ => false

/-- The thread that turned two-factor on last, if nobody has turned it off since, and whether it
has stored its codes. -/
def enrolment (u : Uuid) : List AppEvent → Option (ℕ × Bool)
  | [] => none
  | e :: earlier =>
      if enablesTwoFactor u e then some (e.tid, false)
      else if disablesTwoFactor u e then none
      else (enrolment u earlier).map fun x ↦
        (x.1, x.2 || (storesCodes u e && decide (e.tid = x.1)))

/-- The codes of the enrolment are stored. -/
def batchStored (u : Uuid) (h : List AppEvent) : Bool := (enrolment u h).any Prod.snd

/-- The enrolment in force is that of the thread. -/
def enrolledBy (u : Uuid) (i : ℕ) (h : List AppEvent) : Bool :=
  (enrolment u h).any fun x ↦ decide (x.1 = i)

/-- Codes were stored since the thread has begun to replace them. -/
def storedSinceLock (u : Uuid) (i : ℕ) (h : List AppEvent) : Bool :=
  (h.takeWhile fun x ↦ !(locksCodes u x && decide (x.tid = i))).any (storesCodes u)

/-- Two-factor is turned on where it is off, stored codes stay as they are while it is on, none
are stored while an enrolment replaces the codes, and a confirmation that has turned two-factor on
is neither failed by the database nor cut off. -/
def enrolmentGuard (u : Uuid) : AppGuard where
  runs e h := (enablesTwoFactor u e = true → enrolment u h = none) ∧
    (removesCodes u e = true → batchStored u h = false) ∧
      (storesCodes u e = true → enrolledBy u e.tid h = true → storedSinceLock u e.tid h = false)
  faults i _ h := ∀ e ∈ ownEvents i h, enablesTwoFactor u e = false
  cuts i _ h := ∀ e ∈ ownEvents i h, enablesTwoFactor u e = false

/-- `claim` would find the code. -/
def codeAccepted (u : Uuid) (hash : String) (s : Server) : Bool :=
  s.db.recoveryCodes.any (RecoveryCode.matches u hash)

def storedHashes (u : Uuid) (s : Server) : List String :=
  (s.db.recoveryCodes.filter fun c ↦ decide (c.userId = u)).map RecoveryCode.codeHash

/-- The codes that a confirmation of `u` is answered with. -/
def shownCodes (u : Uuid) : AppEvent → Option (List String)
  | .answered _ (.twoFactorEnable (.bearer claims) _) (.ok (.totpEnabled codes)) _ =>
      if claims.sub = u then some codes else none
  | _ => none

/-- After the thread `i` did `first`, somebody did `next`. -/
def FollowedBy (h : List AppEvent) (i : ℕ) (first next : AppEvent → Bool) : Prop :=
  ∃ newer e older, h = newer ++ e :: older ∧ e.tid = i ∧ first e = true ∧ ∃ x ∈ newer, next x = true

/-- Codes that were shown are accepted, unless they were used since they were stored or two-factor
was turned off since the confirmation had turned it on. -/
def ShownCodesHold (cx : Context) (u : Uuid) (W : AppWorld) : Prop :=
  ∀ a ∈ W.history, ∀ codes, shownCodes u a = some codes → ∀ raw ∈ codes,
    codeAccepted u (cx.sha256 raw) W.store = true ∨
      FollowedBy W.history a.tid (storesCodes u) (usesCode u (cx.sha256 raw)) ∨
        FollowedBy W.history a.tid (enablesTwoFactor u) (disablesTwoFactor u)

/-- With nothing in flight and two-factor on, the stored codes are a batch that was shown. -/
def StoredCodesShown (cx : Context) (u : Uuid) (c : AppConfig) : Prop :=
  (∀ t ∈ c.pool, t.rest = none) → twoFactorOn u c.world.store = true →
    ∃ a ∈ c.world.history, ∃ codes, shownCodes u a = some codes ∧
      storedHashes u c.world.store = codes.map cx.sha256

instance (u : Uuid) (e : AppEvent) (h : List AppEvent) : Decidable ((enrolmentGuard u).runs e h) :=
  inferInstanceAs (Decidable ((_ → _) ∧ (_ → _) ∧ (_ → _ → _)))

instance (u : Uuid) (i : ℕ) (k : Request) (h : List AppEvent) :
    Decidable ((enrolmentGuard u).faults i k h) :=
  inferInstanceAs (Decidable (∀ e ∈ ownEvents i h, enablesTwoFactor u e = false))

instance (u : Uuid) (i : ℕ) (k : Request) (h : List AppEvent) :
    Decidable ((enrolmentGuard u).cuts i k h) :=
  inferInstanceAs (Decidable (∀ e ∈ ownEvents i h, enablesTwoFactor u e = false))

/-! ## One confirmation -/

/-- A confirmation turns two-factor on once, and who has turned it on is shown the codes that were
stored next, in place of those that were found. -/
def EnrolSteps (cx : Context) (u : Uuid) : AppEvent → List AppEvent → Prop
  | .ran _ _ (.sql (.users (.enableTotp _))) _, own => ∀ x ∈ own, isEnabling x = false
  | .answered i k a _, own =>
      (∀ codes, a = .ok (.totpEnabled codes) →
        ∃ (claims : Claims) (code : String) (b b₀ : Server) (rest : List AppEvent),
          k = .twoFactorEnable (.bearer claims) code ∧
          own = .ran i k (.sql (.recoveryCodes (.replaceAll claims.sub
              (storedHashes claims.sub b₀) (codes.map cx.sha256)))) b ::
            .ran i k (.sql (.recoveryCodes (.lockAll claims.sub))) b₀ :: rest ∧
            ∃ x ∈ rest, enablesTwoFactor claims.sub x = true) ∧
      ((∃ x ∈ own, enablesTwoFactor u x = true) → ∃ codes, a = .ok (.totpEnabled codes))
  | _, _ => True

section Handlers

variable {cx : Context} {u : Uuid} {i : ℕ} {k : Request} {own : List AppEvent}

theorem isEnabling_of_enables {e : AppEvent} (h : enablesTwoFactor u e = true) :
    isEnabling e = true := by
  unfold enablesTwoFactor at h
  split at h
  · rfl
  · cases h

theorem enrolSteps_of_ne {q : Statement} (hq : ∀ u, q ≠ .sql (.users (.enableTotp u))) (s : Server)
    (own : List AppEvent) : EnrolSteps cx u (.ran i k q s) own := by
  unfold EnrolSteps
  split
  next heq =>
    cases heq
    exact absurd rfl (hq _)
  next heq => cases heq
  next => trivial

theorem isEnabling_of_ne {q : Statement} (hq : ∀ u, q ≠ .sql (.users (.enableTotp u)))
    (s : Server) : isEnabling (.ran i k q s) = false := by
  unfold isEnabling
  split
  next heq =>
    cases heq
    exact absurd rfl (hq _)
  next => rfl

/-- Nothing was turned on so far. -/
def NoneEnabled (own : List AppEvent) : Prop := ∀ x ∈ own, isEnabling x = false

theorem NoneEnabled.cons {e : AppEvent} (h : NoneEnabled own) (he : isEnabling e = false) :
    NoneEnabled (e :: own) := by
  intro x hx
  rcases List.mem_cons.mp hx with rfl | hx
  · exact he
  · exact h x hx

theorem NoneEnabled.of_account (h : NoneEnabled own) (u : Uuid) :
    ∀ x ∈ own, enablesTwoFactor u x = false := by
  intro x hx
  cases henables : enablesTwoFactor u x with
  | false => rfl
  | true => exact absurd ((h x hx).symm.trans (isEnabling_of_enables henables)) (by decide)

/-- Any answer without codes is allowed while two-factor was not turned on. -/
theorem delivers_of_none {a : Except AppError Response}
    (h : ∀ x ∈ own, enablesTwoFactor u x = false) (ha : ∀ codes, a ≠ .ok (.totpEnabled codes)) :
    Delivers (EnrolSteps cx u) i k a own :=
  fun s ↦ ⟨fun codes hcodes ↦ absurd hcodes (ha codes),
    fun ⟨x, hx, henables⟩ ↦ absurd ((h x hx).symm.trans henables) (by decide)⟩

/-- The parts of a request that turn nothing on. -/
theorem traced_noneEnabled {ε α : Type} {p : Prog Statement.Res ε α}
    (hp : p.Only fun q ↦ ∀ u, q ≠ .sql (.users (.enableTotp u))) (h : NoneEnabled own) :
    Traced (machine cx) (EnrolSteps cx u) i k p (fun _ ↦ NoneEnabled) (fun _ ↦ NoneEnabled) own :=
  (traced_of_only hp (returns_true _) (fun _ hq s own h ↦ ⟨enrolSteps_of_ne hq s own,
    h.cons (isEnabling_of_ne hq s)⟩) h).mono (fun _ _ h ↦ h.2) fun _ _ h ↦ h

/-- Under the guard a confirmation that has turned two-factor on shows its codes. -/
theorem tracedIf_twoFactorEnable (caller : Presented) (code : String) :
    TracedIf (machine cx) (fun _ _ ↦ True) (fun own ↦ ∀ e ∈ own, enablesTwoFactor u e = false)
      (EnrolSteps cx u) i (.twoFactorEnable caller code) (handle cx (.twoFactorEnable caller code))
      (fun a ↦ Delivers (EnrolSteps cx u) i (.twoFactorEnable caller code) (.ok a))
      (fun e ↦ Delivers (EnrolSteps cx u) i (.twoFactorEnable caller code) (.error e)) [] := by
  have hquiet : ∀ q : Statement, q.effect = .none → ∀ u, q ≠ .sql (.users (.enableTotp u)) := by
    rintro q hq u rfl
    simp at hq
  have failed : ∀ (e : AppError) (own : List AppEvent), NoneEnabled own →
      Delivers (EnrolSteps cx u) i (.twoFactorEnable caller code) (.error e) own :=
    fun e own h ↦ delivers_of_none (h.of_account u) nofun
  have hsession : Traced (machine cx) (EnrolSteps cx u) i (.twoFactorEnable caller code)
      (sessionUser cx caller false)
      (fun actor own ↦ (∃ claims, caller = .bearer claims ∧ actor.id = claims.sub) ∧
        NoneEnabled own)
      (fun _ ↦ NoneEnabled) [] :=
    ((traced_sessionUser (fun q hq s own ↦ enrolSteps_of_ne (hquiet q hq) s own)
      (fun claims role own hcaller _ ↦ ⟨claims, hcaller, rfl⟩) (E := fun _ _ ↦ True)
        fun _ _ ↦ trivial).and
        (traced_noneEnabled (only_sessionUser hquiet _ _) (by simp [NoneEnabled]))).mono
          (fun actor own h ↦ h) fun _ _ h ↦ h.2
  refine tracedIf_bind.mpr (hsession.under.mono (fun actor own h ↦ ?_) failed)
  obtain ⟨⟨claims, rfl, hactor⟩, hown⟩ := h
  refine tracedIf_bind.mpr (tracedIf_bind.mpr (tracedIf_bind.mpr (tracedIf_sql (fun s₁ _ ↦
    ⟨enrolSteps_of_ne (by simp) s₁ own, fun found hfound ↦ ?_, nofun⟩) fun _ ↦ failed _ _ hown)))
  have hown₁ := hown.cons (e := .ran i (.twoFactorEnable (.bearer claims) code)
    (.sql (.users (.findById actor.id))) s₁) rfl
  refine (tracedIf_okOr ..).mpr ⟨fun user huser ↦ ?_, fun _ ↦ failed _ _ hown₁⟩
  obtain ⟨hsome, -⟩ := Option.filter_eq_some_iff.mp huser
  obtain ⟨-, hid, -⟩ := find?_liveId_eq_some ((Option.some.inj hfound).trans hsome)
  refine tracedIf_bind.mpr ((tracedIf_ensure ..).mpr ⟨fun _ ↦ ?_, fun _ ↦ failed _ _ hown₁⟩)
  refine tracedIf_bind.mpr ((tracedIf_okOr ..).mpr ⟨fun secret _ ↦ ?_, fun _ ↦ failed _ _ hown₁⟩)
  refine tracedIf_bind.mpr ⟨fun s₂ _ ↦ ⟨enrolSteps_of_ne (by simp) s₂ _, ?_⟩, by rintro _ _ ⟨⟩⟩
  have hown₂ := hown₁.cons (e := .ran i (.twoFactorEnable (.bearer claims) code)
    (.verifyCode secret user.email code) s₂) rfl
  refine tracedIf_bind.mpr ((tracedIf_ensure ..).mpr ⟨fun _ ↦ ?_, fun _ ↦ failed _ _ hown₂⟩)
  refine tracedIf_bind.mpr (tracedIf_sql (fun s₃ _ ↦ ⟨hown₂, fun _ _ ↦ ?_, nofun⟩)
    fun _ ↦ failed _ _ hown₂)
  refine tracedIf_bind.mpr ⟨fun s₄ _ ↦ ⟨enrolSteps_of_ne (by simp) s₄ _, ?_⟩, by rintro _ _ ⟨⟩⟩
  refine tracedIf_bind.mpr (tracedIf_bind.mpr (tracedIf_sql (fun s₅ _ ↦
    ⟨enrolSteps_of_ne (by simp) s₅ _, fun stored hstored ↦ ?_, nofun⟩)
      fun hnone ↦ delivers_of_none hnone nofun))
  refine tracedIf_sql (fun s₆ _ ↦ ⟨enrolSteps_of_ne (by simp) s₆ _, fun _ _ ↦ ?_, nofun⟩)
    fun hnone ↦ delivers_of_none hnone nofun
  have hsub : user.id = claims.sub := hid.trans hactor
  obtain rfl : storedHashes user.id s₅ = stored := Option.some.inj hstored
  rw [hsub]
  refine fun s ↦ ⟨fun codes hcodes ↦ ?_, fun _ ↦ ⟨_, rfl⟩⟩
  obtain rfl := Response.totpEnabled.inj (Except.ok.inj hcodes)
  exact ⟨claims, code, s₆, s₅, _, rfl, rfl, _, List.mem_cons_of_mem _ List.mem_cons_self,
    by simp [enablesTwoFactor]⟩

theorem tracedIf_enrolSteps (k : Request) (i : ℕ) :
    TracedIf (machine cx) (fun _ _ ↦ True) (fun own ↦ ∀ e ∈ own, enablesTwoFactor u e = false)
      (EnrolSteps cx u) i k (handle cx k) (fun a ↦ Delivers (EnrolSteps cx u) i k (.ok a))
      (fun e ↦ Delivers (EnrolSteps cx u) i k (.error e)) [] := by
  by_cases hk : ∃ caller code, k = .twoFactorEnable caller code
  · obtain ⟨caller, code, rfl⟩ := hk
    exact tracedIf_twoFactorEnable caller code
  simp only [not_exists] at hk
  have hreturns : (handle cx k).Returns fun a ↦ ∀ codes, a ≠ .totpEnabled codes := by
    cases k with
    | twoFactorEnable caller code => exact absurd rfl (hk caller code)
    | _ =>
        simp only [handle]
        repeat' refine returns_bind fun _ ↦ ?_
        rintro codes ⟨⟩
  have hwalk : Traced (machine cx) (EnrolSteps cx u) i k (handle cx k)
      (fun a own ↦ (∀ codes, a ≠ .totpEnabled codes) ∧ NoneEnabled own) (fun _ ↦ NoneEnabled) [] :=
    traced_of_only (handle_never_enables hk) hreturns
      (fun _ hq s own h ↦ ⟨enrolSteps_of_ne hq s own, h.cons (isEnabling_of_ne hq s)⟩)
        (by simp [NoneEnabled])
  refine Traced.under (hwalk.mono (fun a own h ↦ ?_) fun e own h ↦ ?_)
  · exact delivers_of_none (h.2.of_account u) fun codes hcodes ↦ h.1 codes (Except.ok.inj hcodes)
  · exact delivers_of_none (h.of_account u) (by rintro codes ⟨⟩)

end Handlers

/-! ## One statement -/

section Statements

variable {cx : Context} {u : Uuid} {s : Server} {i : ℕ} {k : Request} {q : Statement}

/-- What keeps all codes of the account. -/
theorem filter_other {p : RecoveryCode → Bool} (hp : ∀ c, c.userId = u → p c = true)
    (codes : List RecoveryCode) : (codes.filter p).filter (fun c ↦ decide (c.userId = u)) =
      codes.filter fun c ↦ decide (c.userId = u) := by
  rw [List.filter_filter]
  refine List.filter_congr fun c _ ↦ ?_
  by_cases hc : c.userId = u
  · simp [hc, hp c hc]
  · simp [hc]

theorem storedHashes_exec (hq : removesCodes u (.ran i k q s) = false) :
    storedHashes u ((machine cx).exec q s).2 = storedHashes u s := by
  cases q with
  | sql q =>
      cases q with
      | recoveryCodes q =>
          cases q with
          | lockAll id => rfl
          | replaceAll id found hashes =>
              have hne : id ≠ u := by simpa [removesCodes] using hq
              have hkept (c : RecoveryCode) (hc : c.userId = u) :
                  decide (¬(c.userId = id ∧ c.codeHash ∈ found)) = true := by
                simp [hc, hne.symm]
              have hnew : (hashes.map fun hash ↦ (⟨id, hash, none, s.now⟩ : RecoveryCode)).filter
                  (fun c ↦ decide (c.userId = u)) = [] := by
                simp [List.filter_map, Function.comp_def, hne]
              simp only [exec_sql, Sql.run, RecoveryCodeSql.run, storedHashes, List.filter_append,
                hnew, filter_other hkept, List.append_nil]
          | claim id hash =>
              simp only [exec_sql, Sql.run, RecoveryCodeSql.run, storedHashes, List.filter_map,
                List.map_map]
              have hsame (c : RecoveryCode) :
                  (if c.matches id hash then { c with usedAt := some s.now } else c).userId =
                      c.userId ∧
                    (if c.matches id hash then { c with usedAt := some s.now } else c).codeHash =
                      c.codeHash := by
                split <;> exact ⟨rfl, rfl⟩
              simp only [Function.comp_def, hsame]
          | deleteAll id =>
              have hne : id ≠ u := by simpa [removesCodes] using hq
              have hkept (c : RecoveryCode) (hc : c.userId = u) :
                  decide (c.userId ≠ id) = true := by
                simp [hc, hne.symm]
              simp only [exec_sql, Sql.run, RecoveryCodeSql.run, storedHashes, filter_other hkept]
      | _ => rfl
  | _ => rfl

theorem codeAccepted_exec {hash : String} (hq : removesCodes u (.ran i k q s) = false)
    (huse : usesCode u hash (.ran i k q s) = false) (h : codeAccepted u hash s = true) :
    codeAccepted u hash ((machine cx).exec q s).2 = true := by
  cases q with
  | sql q =>
      cases q with
      | recoveryCodes q =>
          obtain ⟨c, hc, hmatches⟩ := List.any_eq_true.mp h
          have hbits := hmatches
          simp only [RecoveryCode.matches, Bool.and_eq_true, decide_eq_true_eq] at hbits
          refine List.any_eq_true.mpr ⟨c, ?_, hmatches⟩
          cases q with
          | lockAll id => exact hc
          | replaceAll id found hashes =>
              have hne : id ≠ u := by simpa [removesCodes] using hq
              exact List.mem_append_left _ (List.mem_filter.mpr ⟨hc, by simp [hbits.1.1, hne.symm]⟩)
          | claim id hash' =>
              refine List.mem_map.mpr ⟨c, hc, if_neg fun hclaimed ↦ ?_⟩
              simp only [RecoveryCode.matches, Bool.and_eq_true, decide_eq_true_eq] at hclaimed
              simp [usesCode, ← hclaimed.1.1, ← hclaimed.1.2, hbits] at huse
          | deleteAll id =>
              have hne : id ≠ u := by simpa [removesCodes] using hq
              exact List.mem_filter.mpr ⟨hc, by simp [hbits.1.1, hne.symm]⟩
      | _ => exact h
  | _ => exact h

/-- Only a commit adds codes. -/
theorem storedHashes_subset (hq : storesCodes u (.ran i k q s) = false) {found : List String}
    (h : storedHashes u s ⊆ found) : storedHashes u ((machine cx).exec q s).2 ⊆ found := by
  by_cases hremoves : removesCodes u (.ran i k q s) = true
  · unfold removesCodes at hremoves
    split at hremoves
    next heq =>
      cases heq
      simp [storesCodes, of_decide_eq_true hremoves] at hq
    next heq =>
      cases heq
      have hid := of_decide_eq_true hremoves
      have hnone : storedHashes u ((machine cx).exec (.sql (.recoveryCodes (.deleteAll u))) s).2 =
          [] := by
        simp [storedHashes, Sql.run, RecoveryCodeSql.run, List.filter_filter]
      rw [hid, hnone]
      exact List.nil_subset found
    next => cases hremoves
  · rwa [storedHashes_exec (by simpa using hremoves)]

/-- If the transaction has found all codes, those of the new batch are left. -/
theorem storedHashes_replaceAll {found : List String} (h : storedHashes u s ⊆ found)
    (hashes : List String) :
    storedHashes u ((machine cx).exec (.sql (.recoveryCodes (.replaceAll u found hashes))) s).2 =
      hashes := by
  have hgone : (s.db.recoveryCodes.filter fun c ↦
      decide (c.userId = u) && decide (¬(c.userId = u ∧ c.codeHash ∈ found))) = [] := by
    apply List.filter_eq_nil_iff.mpr
    intro c hc hboth
    simp only [Bool.and_eq_true, decide_eq_true_eq, not_and] at hboth
    exact hboth.2 hboth.1 (h (List.mem_map_of_mem (List.mem_filter.mpr ⟨hc, by simp [hboth.1]⟩)))
  simp only [exec_sql, storedHashes, Sql.run, RecoveryCodeSql.run, List.filter_append,
    List.filter_filter, hgone]
  simp [List.filter_map, Function.comp_def]

theorem codeAccepted_replaceAll {found hashes : List String} {hash : String} (h : hash ∈ hashes) :
    codeAccepted u hash
      ((machine cx).exec (.sql (.recoveryCodes (.replaceAll u found hashes))) s).2 = true := by
  refine List.any_eq_true.mpr ⟨⟨u, hash, none, s.now⟩, List.mem_append_right _ ?_, ?_⟩
  · exact List.mem_map.mpr ⟨hash, h, rfl⟩
  · simp [RecoveryCode.matches]

end Statements

/-! ## All runs -/

section Runs

variable {cx : Context} {u : Uuid} {s : Server} {c : AppConfig}

/-- Runs in which the enrolments of `u` do not get in each other's way. -/
abbrev Undisturbed (cx : Context) (u : Uuid) (s : Server) (c : AppConfig) : Prop :=
  ReachableIf (enrolmentGuard u) (machine cx) (handle cx) (fun _ ↦ True) s c

/-- From an enabling on, as long as nobody disables, the enrolment is that thread's. -/
theorem Undisturbed.enrolment_since (hc : Undisturbed cx u s c) {e : AppEvent}
    (he : enablesTwoFactor u e = true) (later newer older : List AppEvent)
    (hhist : c.world.history = later ++ (newer ++ e :: older))
    (hkept : ∀ x ∈ newer, disablesTwoFactor u x = false) :
    enrolment u (newer ++ e :: older) =
      some (e.tid, newer.any fun x ↦ storesCodes u x && decide (x.tid = e.tid)) := by
  induction newer generalizing later with
  | nil => simp [enrolment, he]
  | cons x newer ih =>
      have hrest := ih (later ++ [x]) (by simp [hhist]) fun y hy ↦
        hkept y (List.mem_cons_of_mem x hy)
      have hstays : enablesTwoFactor u x = false := by
        cases x with
        | answered => rfl
        | ran i k q b =>
            have hguard : enablesTwoFactor u (.ran i k q b) = true →
                enrolment u (newer ++ e :: older) = none := (ReachableIf.runs hc hhist).1
            cases henables : enablesTwoFactor u (.ran i k q b) with
            | false => rfl
            | true =>
                rw [hguard henables] at hrest
                cases hrest
      simp [enrolment, hstays, hkept x List.mem_cons_self, hrest, Bool.or_comm]

/-- Once the codes of an enrolment are stored they are not taken away while it lasts. -/
theorem Undisturbed.codes_kept (hc : Undisturbed cx u s c) {r e : AppEvent}
    {later mid older : List AppEvent} (hhist : c.world.history = later ++ r :: (mid ++ e :: older))
    (he : enablesTwoFactor u e = true) (hr : storesCodes u r = true) (htid : r.tid = e.tid)
    (hkept : ∀ x ∈ later ++ r :: mid, disablesTwoFactor u x = false) :
    ∀ x ∈ later, removesCodes u x = false := by
  intro x hx
  obtain ⟨l₁, l₂, rfl⟩ := List.append_of_mem hx
  cases x with
  | answered => rfl
  | ran i k q b =>
      have hsplit : c.world.history = l₁ ++ .ran i k q b :: ((l₂ ++ r :: mid) ++ e :: older) := by
        simp [hhist]
      have hsince := hc.enrolment_since he (l₁ ++ [.ran i k q b]) (l₂ ++ r :: mid) older
        (by simp [hhist]) fun y hy ↦ hkept y (by
          simp only [List.mem_append, List.mem_cons] at hy ⊢
          tauto)
      have hstored : batchStored u ((l₂ ++ r :: mid) ++ e :: older) = true := by
        rw [batchStored, hsince]
        simp [hr, htid]
      cases hremoves : removesCodes u (.ran i k q b) with
      | false => rfl
      | true =>
          exact absurd (hstored.symm.trans ((ReachableIf.runs hc hsplit).2.1 hremoves)) (by decide)

theorem Undisturbed.follows (hc : Undisturbed cx u s c) :
    c.Follows (machine cx) (fun _ _ ↦ True) (fun _ own ↦ ∀ e ∈ own, enablesTwoFactor u e = false)
      (EnrolSteps cx u) :=
  ReachableIf.follows hc (fun _ _ _ ↦ trivial) (fun _ _ _ h ↦ h) fun k _ i ↦ tracedIf_enrolSteps k i

/-- A confirmation turns two-factor on once. -/
theorem Undisturbed.enables_once (hc : Undisturbed cx u s c) (i : ℕ) :
    Once (fun e ↦ e.tid = i ∧ isEnabling e = true) c.world.history := by
  refine pairwise_of_split fun later e₂ mid e₁ earlier hhist ↦ ?_
  rintro ⟨⟨htid₁, henabling₁⟩, htid₂, henabling₂⟩
  have hsteps : EnrolSteps cx u e₂ (ownEvents e₂.tid (mid ++ e₁ :: earlier)) :=
    Along.of_append (P := AlongOwn (EnrolSteps cx u)) (hhist ▸ hc.follows.along)
  have hown : e₁ ∈ ownEvents e₂.tid (mid ++ e₁ :: earlier) :=
    mem_ownEvents.mpr ⟨by simp, htid₁.trans htid₂.symm⟩
  unfold isEnabling at henabling₂
  split at henabling₂
  · exact absurd ((hsteps e₁ hown).symm.trans henabling₁) (by decide)
  · cases henabling₂

/-- What a confirmation did before it showed its codes. -/
theorem Undisturbed.steps_of_shown (hc : Undisturbed cx u s c) {later earlier : List AppEvent}
    {i : ℕ} {k : Request} {codes : List String} {b : Server}
    (hhist : c.world.history = later ++ .answered i k (.ok (.totpEnabled codes)) b :: earlier) :
    ∃ (claims : Claims) (code : String) (e : AppEvent) (b' b₀ : Server)
      (since between mid older : List AppEvent), k = .twoFactorEnable (.bearer claims) code ∧
        c.world.history = since ++ .ran i k (.sql (.recoveryCodes (.replaceAll claims.sub
            (storedHashes claims.sub b₀) (codes.map cx.sha256)))) b' ::
          ((between ++ .ran i k (.sql (.recoveryCodes (.lockAll claims.sub))) b₀ :: mid) ++
            e :: older) ∧
          (∀ x ∈ between, x.tid ≠ i) ∧ e.tid = i ∧ enablesTwoFactor claims.sub e = true := by
  have hsteps : EnrolSteps cx u (.answered i k (.ok (.totpEnabled codes)) b)
      (ownEvents i earlier) :=
    Along.of_append (P := AlongOwn (EnrolSteps cx u)) (hhist ▸ hc.follows.along)
  obtain ⟨claims, code, b', b₀, rest, hk, hown, e, he, henables⟩ := hsteps.1 codes rfl
  obtain ⟨newer, older, rfl, -, hrest⟩ := exists_of_ownEvents (hown.trans (List.nil_append _).symm)
  obtain ⟨between, oldest, rfl, hnone, rfl⟩ :=
    exists_of_ownEvents (hrest.trans (List.nil_append _).symm)
  obtain ⟨hmem, htid⟩ := mem_ownEvents.mp he
  obtain ⟨mid, first, rfl⟩ := List.append_of_mem hmem
  refine ⟨claims, code, e, b', b₀, later ++ .answered i k (.ok (.totpEnabled codes)) b :: newer,
    between, mid, first, hk, by simp [hhist], fun x hx hi ↦ ?_, htid, henables⟩
  exact List.not_mem_nil (hnone ▸ mem_ownEvents.mpr ⟨hx, hi⟩)

theorem Undisturbed.shownCodesHold (hc : Undisturbed cx u s c) : ShownCodesHold cx u c.world := by
  intro a ha codes hshown raw hraw
  obtain ⟨later, earlier, hhist⟩ := List.append_of_mem ha
  obtain ⟨i, claims, code, b, rfl, rfl⟩ : ∃ i claims code b, claims.sub = u ∧
      a = .answered i (.twoFactorEnable (.bearer claims) code) (.ok (.totpEnabled codes)) b := by
    unfold shownCodes at hshown
    split at hshown
    next i claims code codes b =>
      split at hshown
      next hsub =>
        cases hshown
        exact ⟨i, claims, code, b, hsub, rfl⟩
      next => cases hshown
    next => cases hshown
  obtain ⟨claims', code', e, b', b₀, since, between, mid, older, hk, hsplit, -, htid, henables⟩ :=
    hc.steps_of_shown hhist
  cases hk
  generalize hbegun : between ++ .ran i _ _ b₀ :: mid = begun at hsplit
  generalize hcommit : Event.ran i _
    (Statement.sql (Sql.recoveryCodes (RecoveryCodeSql.replaceAll _ _ _))) b' = commit at hsplit
  have hstores : storesCodes claims.sub commit = true := by simp [← hcommit, storesCodes]
  have hi : commit.tid = i := by rw [← hcommit]; rfl
  by_cases hoff : ∃ x ∈ since ++ commit :: begun, disablesTwoFactor claims.sub x = true
  · exact .inr (.inr ⟨_, e, older, by simp [hsplit], htid, henables, hoff⟩)
  by_cases huse : ∃ x ∈ since, usesCode claims.sub (cx.sha256 raw) x = true
  · exact .inr (.inl ⟨since, _, _, hsplit, hi, hstores, huse⟩)
  simp only [not_exists, not_and, Bool.not_eq_true] at hoff huse
  have hstays := hc.codes_kept hsplit henables hstores (hi.trans htid.symm) hoff
  subst hcommit
  refine .inl (hc.reachable.live_of_begun (fun s ↦ codeAccepted claims.sub (cx.sha256 raw) s = true)
    (fun _ _ ↦ Iff.rfl) hsplit ?_ fun x hx hlive hend ↦ ?_)
  · exact codeAccepted_replaceAll (List.mem_map_of_mem hraw)
  · cases x with
    | answered => exact hend
    | ran i k q b => exact hend (codeAccepted_exec (hstays _ hx) (huse _ hx) hlive)

/-- With nothing in flight, who turned two-factor on was shown codes. -/
theorem Undisturbed.shown_of_enables (hc : Undisturbed cx u s c)
    (hquiet : ∀ t ∈ c.pool, t.rest = none) {e : AppEvent} (he : e ∈ c.world.history)
    (henables : enablesTwoFactor u e = true) : ∃ k codes b later earlier,
      c.world.history = later ++ .answered e.tid k (.ok (.totpEnabled codes)) b :: earlier := by
  obtain ⟨a, ha, hanswer⟩ : ∃ a ∈ ownEvents e.tid c.world.history, a.isAnswer = true := by
    obtain ⟨⟨k, p⟩, hi⟩ : ∃ t, c.pool[e.tid]? = some t :=
      ⟨_, List.getElem?_eq_getElem (hc.follows.fresh e he)⟩
    obtain rfl : p = none := hquiet _ (List.mem_of_getElem? hi)
    rcases ReachableIf.done hc hi with hanswered | ⟨h, hcut, hown⟩
    · exact hanswered
    · have hfree := hcut e (hown ▸ mem_ownEvents.mpr ⟨he, rfl⟩)
      exact absurd (hfree.symm.trans henables) (by decide)
  obtain ⟨ha, htid⟩ := mem_ownEvents.mp ha
  obtain ⟨later, earlier, hhist⟩ := List.append_of_mem ha
  have hearlier : e ∈ earlier := by
    rcases hc.reachable.mem_earlier hhist hanswer he htid.symm with rfl | hmem
    · cases e with
      | ran => cases hanswer
      | answered => cases henables
    · exact hmem
  cases a with
  | ran => cases hanswer
  | answered i k a b =>
      obtain rfl : i = e.tid := htid
      have hsteps : EnrolSteps cx u (.answered e.tid k a b) (ownEvents e.tid earlier) :=
        Along.of_append (P := AlongOwn (EnrolSteps cx u)) (hhist ▸ hc.follows.along)
      obtain ⟨codes, rfl⟩ := hsteps.2 ⟨e, mem_ownEvents.mpr ⟨hearlier, rfl⟩, henables⟩
      exact ⟨k, codes, b, later, earlier, hhist⟩

/-- When the codes of an enrolment are stored, no others are there but those it found. -/
theorem Undisturbed.hashes_at_commit (hc : Undisturbed cx u s c)
    {since between mid older : List AppEvent} {i : ℕ} {k k₀ : Request} {b b₀ : Server}
    {hashes : List String} {e : AppEvent}
    (hhist : c.world.history = since ++
      .ran i k (.sql (.recoveryCodes (.replaceAll u (storedHashes u b₀) hashes))) b ::
        ((between ++ .ran i k₀ (.sql (.recoveryCodes (.lockAll u))) b₀ :: mid) ++ e :: older))
    (hothers : ∀ x ∈ between, x.tid ≠ i) (htid : e.tid = i) (he : enablesTwoFactor u e = true)
    (hkept : ∀ x ∈ between ++ .ran i k₀ (.sql (.recoveryCodes (.lockAll u))) b₀ :: mid,
      disablesTwoFactor u x = false) : storedHashes u b ⊆ storedHashes u b₀ := by
  have henrolled : enrolledBy u i ((between ++
      .ran i k₀ (.sql (.recoveryCodes (.lockAll u))) b₀ :: mid) ++ e :: older) = true := by
    have hsince := hc.enrolment_since he _ _ older (hhist.trans (List.append_cons ..)) hkept
    rw [enrolledBy, hsince]
    simp [htid]
  have hnone : ∀ x ∈ between, storesCodes u x = false := by
    have hguard := (ReachableIf.runs hc hhist).2.2 (by simp [storesCodes]) henrolled
    have hbetween : (between ++ .ran i k₀ (.sql (.recoveryCodes (.lockAll u))) b₀ ::
        (mid ++ e :: older)).takeWhile (fun x ↦ !(locksCodes u x && decide (x.tid = i))) =
          between := by
      rw [List.takeWhile_append_of_pos fun x hx ↦ by simp [hothers x hx]]
      simp [locksCodes]
    rw [Event.tid_ran, storedSinceLock, List.append_assoc, List.cons_append, hbetween] at hguard
    simpa using List.any_eq_false.mp hguard
  obtain ⟨c', hc', hworld⟩ := hc.reachable.past hhist
  have hsplit : c'.world.history = between ++
      .ran i k₀ (.sql (.recoveryCodes (.lockAll u))) b₀ :: (mid ++ e :: older) := by
    simp [hworld]
  have hlive := hc'.live_of_begun (fun s ↦ storedHashes u s ⊆ storedHashes u b₀)
    (fun _ _ ↦ Iff.rfl) hsplit (List.Subset.refl _) fun x hx hbefore hend ↦ ?_
  · rwa [hworld] at hlive
  · cases x with
    | answered => exact hend
    | ran i k q b => exact hend (storedHashes_subset (hnone _ hx) hbefore)

/-- With nothing in flight, the codes of the last enrolment are stored. -/
theorem Undisturbed.storedCodesShown (hc : Undisturbed cx u s c) (hs : twoFactorOn u s = false) :
    StoredCodesShown cx u c := by
  intro hquiet hon
  obtain ⟨since, e, before, hhist, hrise, hsince⟩ :=
    hc.reachable.rises_of_live (fun s ↦ twoFactorOn u s = true) (fun _ _ ↦ Iff.rfl)
      (by simp [hs]) hon
  obtain ⟨i, k, b, rfl⟩ : ∃ i k b, e = .ran i k (.sql (.users (.enableTotp u))) b := by
    cases e with
    | answered => exact hrise.elim
    | ran i k q b => exact ⟨i, k, b, by rw [eq_enableTotp_of_rises hrise]⟩
  have hoff : ∀ x ∈ since, disablesTwoFactor u x = false := by
    intro x hx
    have hkept := (hsince x hx).2
    unfold disablesTwoFactor
    split
    · apply decide_eq_false
      rintro rfl
      exact hkept ends_of_disableTotp
    · rfl
  have henables : enablesTwoFactor u (.ran i k (.sql (.users (.enableTotp u))) b) = true := by
    simp [enablesTwoFactor]
  obtain ⟨k', codes, b', later, earlier, hanswered⟩ :=
    hc.shown_of_enables hquiet (by simp [hhist]) henables
  obtain ⟨claims, code, e', b'', b₀, since', between, mid, older, rfl, hsplit, hothers, htid,
    henables'⟩ := hc.steps_of_shown hanswered
  -- the thread has turned two-factor on once, so it stored its codes after that
  have hsplit' := hsplit
  rw [← List.cons_append, ← List.append_assoc] at hsplit'
  obtain ⟨rfl, rfl, rfl⟩ := Once.split_unique (hhist ▸ hc.enables_once i) ⟨rfl, rfl⟩
    ⟨htid, isEnabling_of_enables henables'⟩ (hhist.symm.trans hsplit')
  obtain rfl : u = claims.sub := by simpa [enablesTwoFactor] using henables'
  have hstays := hc.codes_kept hsplit henables (by simp [storesCodes]) rfl hoff
  have hfound := hc.hashes_at_commit hsplit hothers rfl henables fun x hx ↦
    hoff x (List.mem_append_right _ (List.mem_cons_of_mem _ hx))
  refine ⟨.answered i (.twoFactorEnable (.bearer claims) code) (.ok (.totpEnabled codes)) b',
    by simp [hanswered], codes, if_pos rfl, ?_⟩
  refine hc.reachable.live_of_begun (fun s ↦ storedHashes claims.sub s = codes.map cx.sha256)
    (fun _ _ ↦ Iff.rfl) hsplit (storedHashes_replaceAll hfound _) fun x hx hlive hend ↦ ?_
  cases x with
  | answered => exact hend
  | ran i k q b => exact hend ((storedHashes_exec (hstays _ hx)).trans hlive)

/-- In every run in which no confirmation acts on an outdated check, no late statement changes the
codes of a newer enrolment, none are stored while an enrolment replaces them, and no confirmation
gets stuck after turning two-factor on, the codes that were shown hold, and the stored codes are
those of a batch that was shown. -/
theorem recovery_batches_kept (hc : Undisturbed cx u s c) :
    ShownCodesHold cx u c.world ∧ (twoFactorOn u s = false → StoredCodesShown cx u c) :=
  ⟨hc.shownCodesHold, hc.storedCodesShown⟩

end Runs

namespace DoubleSubmit

open Sample

def confirmation : Request := .twoFactorEnable (bearer 1 .user) "100000"

/-- A confirmation that was checked waits until another one has shown its codes. -/
def schedule : List (Action Request ℕ) :=
  alone 0 (.twoFactorSetup (bearer 1 .user)) 5 ++
    .start confirmation :: List.replicate 4 (.run 1) ++ alone 2 confirmation 8 ++
      List.replicate 4 (.run 1)

end DoubleSubmit

theorem recovery_batches_kept_enrolment :
    ∃ c, Undisturbed .sample 1 RestartedSetup.start c ∧ (∀ t ∈ c.pool, t.rest = none) ∧
      twoFactorOn 1 c.world.store = true ∧ ShownCodesHold .sample 1 c.world ∧
        StoredCodesShown .sample 1 c := by
  let test : AppConfig → Bool := fun c ↦
    c.pool.all (fun t ↦ t.rest.isNone) && twoFactorOn 1 c.world.store
  obtain ⟨c, hc, htest⟩ : ∃ c, ReachableIf (enrolmentGuard 1) (machine .sample) (handle .sample)
      (fun _ ↦ True) RestartedSetup.start c ∧ test c = true :=
    ReachableIf.of_schedule RestartedSetup.enrolment test (by decide) (by decide)
  simp only [test, Bool.and_eq_true, List.all_eq_true, Option.isNone_iff_eq_none] at htest
  obtain ⟨hshown, hstored⟩ := recovery_batches_kept hc
  exact ⟨c, hc, htest.1, htest.2, hshown, hstored (by decide)⟩

/-- Two confirmations that both found two-factor off: the codes of one of them are shown and
gone. -/
theorem shown_codes_replaced :
    ∃ c, Reached .sample RestartedSetup.start c ∧ ¬ShownCodesHold .sample 1 c.world := by
  let test : AppConfig → Bool := fun c ↦
    (c.world.history.any fun a ↦ (shownCodes 1 a).any fun codes ↦ codes.contains "1-0") &&
      !codeAccepted 1 (Context.sample.sha256 "1-0") c.world.store &&
        c.world.history.all fun x ↦
          !usesCode 1 (Context.sample.sha256 "1-0") x && !disablesTwoFactor 1 x
  obtain ⟨c, hc, htest⟩ : ∃ c, Reached .sample RestartedSetup.start c ∧ test c = true :=
    Reachable.of_schedule DoubleSubmit.schedule test (by decide) (by decide)
  simp only [test, Bool.and_eq_true, Bool.not_eq_true', List.any_eq_true, List.all_eq_true,
    Option.any_eq_true, List.contains_eq_mem, decide_eq_true_eq] at htest
  obtain ⟨⟨⟨a, ha, codes, hshown, hraw⟩, hgone⟩, hnone⟩ := htest
  refine ⟨c, hc, fun hhold ↦ ?_⟩
  rcases hhold a ha codes hshown "1-0" hraw with haccepted |
    ⟨newer, e, older, hhist, -, -, x, hx, hused⟩ | ⟨newer, e, older, hhist, -, -, x, hx, hoff⟩
  · exact absurd (hgone.symm.trans haccepted) (by decide)
  · exact absurd ((hnone x (by simp [hhist, hx])).1.symm.trans hused) (by decide)
  · exact absurd ((hnone x (by simp [hhist, hx])).2.symm.trans hoff) (by decide)

end ApiStarter
