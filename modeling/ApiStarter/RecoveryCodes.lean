import ApiStarter.Secrets

/-!
# What a recovery code buys

`verify_login` claims the recovery code first and redeems the pending token in
a later statement.  A code is exchanged for an access token only if the pending
token still works when the request gets there.
-/

namespace ApiStarter

open Interleave Interleave.Prog Relational

def RecoveryCode.isUsedBy (u : Uuid) (c : RecoveryCode) : Bool :=
  decide (c.userId = u) && c.usedAt.isSome

def usedCodes (u : Uuid) (s : Server) : ℕ := s.db.recoveryCodes.countP (RecoveryCode.isUsedBy u)

def codeUsed (u : Uuid) (hash : String) (s : Server) : Prop :=
  ∃ c ∈ s.db.recoveryCodes, c.isUsedBy u = true ∧ c.codeHash = hash

/-- The codes of the account differ. -/
def DistinctCodes (u : Uuid) (codes : List RecoveryCode) : Prop :=
  codes.Pairwise fun c c' ↦ c.userId = u → c'.userId = u → c.codeHash ≠ c'.codeHash

def claimsCode : AppEvent → Bool
  | .ran _ _ (.sql (.recoveryCodes (.claim ..))) _ => true
  | _ => false

/-- A recovery code of `u` is claimed while it is unused. -/
def spendsCode (u : Uuid) : AppEvent → Bool
  | .ran _ _ (.sql (.recoveryCodes (.claim id hash))) before =>
      decide (id = u) && before.db.recoveryCodes.any (RecoveryCode.matches u hash)
  | _ => false

/-- A second factor redeems its pending token while that is unused and has not expired. -/
def redeemsPending (cx : Context) : AppEvent → Bool
  | .ran _ (.twoFactorVerify pendingToken _) (.sql (.authTokens (.claim .twoFactorPending hash)))
      before => decide (hash = cx.sha256 pendingToken) &&
        (before.db.authTokens.get? hash).any (AuthToken.isRedeemable .twoFactorPending before.now)
  | _ => false

/-- A second factor is answered with an access token. -/
def passesSecondFactor : AppEvent → Bool
  | .answered _ (.twoFactorVerify ..) (.ok (.token _)) _ => true
  | _ => false

def failsSecondFactor : AppEvent → Bool
  | .answered _ (.twoFactorVerify ..) (.error _) _ => true
  | _ => false

/-- How many access tokens were issued on recovery codes of `u`. -/
def tokensOnCodes (u : Uuid) (h : List AppEvent) : ℕ :=
  h.countP fun a ↦ passesSecondFactor a && h.any fun e ↦ decide (e.tid = a.tid) && spendsCode u e

/-- Recovery codes of `u` and access tokens are exchanged one for one. -/
structure CodesPayOff (u : Uuid) (s : Server) (W : AppWorld) : Prop where
  spentForToken : ∀ hash, codeUsed u hash W.store → ¬codeUsed u hash s →
    ∃ e ∈ W.history, spendsCode u e = true ∧
      ∃ a ∈ W.history, a.tid = e.tid ∧ passesSecondFactor a = true
  tokenOnce : ∀ pendingToken, Once (fun a ↦ passesSecondFactor a = true ∧
    ∃ code, a.request = .twoFactorVerify pendingToken code) W.history
  balance : usedCodes u W.store = usedCodes u s + tokensOnCodes u W.history
  failedSpendsNothing : ∀ a ∈ W.history, failsSecondFactor a = true →
    ∀ e ∈ W.history, e.tid = a.tid → spendsCode u e = false

/-- Every request that spends a recovery code of `u` gets to redeem its pending token while that
still works, and is answered. -/
def SpendersRedeem (cx : Context) (u : Uuid) (h : List AppEvent) : Prop :=
  ∀ e ∈ h, spendsCode u e = true → (∃ r ∈ h, r.tid = e.tid ∧ redeemsPending cx r = true) ∧
    ∃ a ∈ h, a.tid = e.tid ∧ a.isAnswer = true

instance (cx : Context) (u : Uuid) (h : List AppEvent) : Decidable (SpendersRedeem cx u h) :=
  inferInstanceAs (Decidable (∀ e ∈ h, _ → (∃ r ∈ h, _) ∧ ∃ a ∈ h, _))

/-! ## One statement -/

section Statements

variable {cx : Context} {u : Uuid} {s : Server}

/-- A claim uses up one code, or none when there is no match. -/
theorem countP_isUsedBy_claim {codes : List RecoveryCode} (hdistinct : DistinctCodes u codes)
    (now : Time) (hash : String) :
    ((RecoveryCodeSql.claim u hash).run now codes).2.countP (RecoveryCode.isUsedBy u) =
      codes.countP (RecoveryCode.isUsedBy u) +
        if codes.any (RecoveryCode.matches u hash) then 1 else 0 := by
  simp only [RecoveryCodeSql.run]
  induction codes with
  | nil => rfl
  | cons c codes ih =>
      obtain ⟨hhead, htail⟩ := List.pairwise_cons.mp hdistinct
      have ih := ih htail
      cases hmatch : c.matches u hash with
      | false =>
          simp only [List.map_cons, hmatch, Bool.false_eq_true, if_false, List.countP_cons,
            List.any_cons, Bool.false_or, ih]
          omega
      | true =>
          have hbits := hmatch
          simp only [RecoveryCode.matches, Bool.and_eq_true, decide_eq_true_eq,
            Option.isNone_iff_eq_none] at hbits
          obtain ⟨⟨rfl, rfl⟩, hunused⟩ := hbits
          have hnone : codes.any (RecoveryCode.matches c.userId c.codeHash) = false := by
            apply List.any_eq_false.mpr
            intro c' hc' hmatch'
            simp only [RecoveryCode.matches, Bool.and_eq_true, decide_eq_true_eq] at hmatch'
            exact hhead c' hc' rfl hmatch'.1.1 hmatch'.1.2.symm
          have hbefore : c.isUsedBy c.userId = false := by simp [RecoveryCode.isUsedBy, hunused]
          simp only [hnone, Bool.false_eq_true, if_false, Nat.add_zero] at ih
          have hafter :
              ({ c with usedAt := some now } : RecoveryCode).isUsedBy c.userId = true := by
            simp [RecoveryCode.isUsedBy]
          simp [hmatch, hbefore, hafter, ih]

/-- The codes of other accounts are left alone. -/
theorem countP_isUsedBy_claim_ne {u' : Uuid} (hne : u' ≠ u) (codes : List RecoveryCode)
    (now : Time) (hash : String) :
    ((RecoveryCodeSql.claim u' hash).run now codes).2.countP (RecoveryCode.isUsedBy u) =
      codes.countP (RecoveryCode.isUsedBy u) := by
  simp only [RecoveryCodeSql.run, List.countP_map]
  refine List.countP_congr fun c _ ↦ ?_
  simp only [Function.comp_apply]
  split
  next hmatch =>
    simp only [RecoveryCode.matches, Bool.and_eq_true, decide_eq_true_eq] at hmatch
    simp [RecoveryCode.isUsedBy, hmatch.1.1, hne]
  next => rfl

theorem DistinctCodes.claim {codes : List RecoveryCode} (h : DistinctCodes u codes) (now : Time)
    (u' : Uuid) (hash : String) :
    DistinctCodes u ((RecoveryCodeSql.claim u' hash).run now codes).2 := by
  refine List.pairwise_map.mpr (h.imp fun {c c'} hne ↦ ?_)
  split <;> split <;> exact hne

/-- Unless codes are renewed, the number of used codes moves with a spent code only. -/
theorem usedCodes_exec (cx : Context) {q : Statement} (hq : q.effect ≠ .renewRecoveryCodes)
    (hdistinct : DistinctCodes u s.db.recoveryCodes) (i : ℕ) (k : Request) :
    usedCodes u ((machine cx).exec q s).2 =
        usedCodes u s + (if spendsCode u (.ran i k q s) then 1 else 0) ∧
      DistinctCodes u ((machine cx).exec q s).2.db.recoveryCodes := by
  cases q with
  | sql q =>
      cases q with
      | recoveryCodes q =>
          cases q with
          | claim id hash =>
              refine ⟨?_, hdistinct.claim s.now id hash⟩
              by_cases hid : id = u
              · subst hid
                simpa [usedCodes, spendsCode, Sql.run] using countP_isUsedBy_claim
                  hdistinct s.now hash
              · simpa [usedCodes, spendsCode, hid, Sql.run] using
                  countP_isUsedBy_claim_ne hid s.db.recoveryCodes s.now hash
          | lockAll id => exact ⟨rfl, hdistinct⟩
          | replaceAll id found hashes => exact absurd rfl hq
          | deleteAll id => exact absurd rfl hq
      | _ => exact ⟨rfl, hdistinct⟩
  | _ => exact ⟨rfl, hdistinct⟩

/-- Only a claim makes a code used. -/
theorem spendsCode_of_rises {hash : String} {q : Statement} {i : ℕ} {k : Request}
    (h : Rises (machine cx) (codeUsed u hash) q s) : spendsCode u (.ran i k q s) = true := by
  obtain ⟨hbefore, c, hc, hused, hhash⟩ := h
  cases q with
  | sql q =>
      cases q with
      | recoveryCodes q =>
          cases q with
          | claim id hash' =>
              obtain ⟨c₀, hc₀, rfl⟩ := List.mem_map.mp hc
              split at hused
              next hmatch =>
                have hbits := hmatch
                simp only [RecoveryCode.matches, Bool.and_eq_true, decide_eq_true_eq] at hbits
                have hu : c₀.userId = u := by simpa [RecoveryCode.isUsedBy] using hused
                obtain rfl : id = u := hbits.1.1.symm.trans hu
                simp only [spendsCode, decide_true, Bool.true_and]
                exact List.any_eq_true.mpr ⟨c₀, hc₀, hmatch⟩
              next hmatch =>
                rw [if_neg hmatch] at hhash
                exact absurd ⟨c₀, hc₀, hused, hhash⟩ hbefore
          | lockAll id => exact absurd ⟨c, hc, hused, hhash⟩ hbefore
          | replaceAll id found hashes =>
              rcases List.mem_append.mp hc with hold | hnew
              · exact absurd ⟨c, (List.mem_filter.mp hold).1, hused, hhash⟩ hbefore
              · obtain ⟨hash', -, rfl⟩ := List.mem_map.mp hnew
                simp [RecoveryCode.isUsedBy] at hused
          | deleteAll id => exact absurd ⟨c, (List.mem_filter.mp hc).1, hused, hhash⟩ hbefore
      | _ => exact absurd ⟨c, hc, hused, hhash⟩ hbefore
  | _ => exact absurd ⟨c, hc, hused, hhash⟩ hbefore

/-- The redemption of a pending token consumes its secret. -/
theorem consumed_of_redeemsPending {e : AppEvent} (h : redeemsPending cx e = true) :
    ∃ pendingToken code, e.request = .twoFactorVerify pendingToken code ∧
      Consumed (.link (cx.sha256 pendingToken)) (.redeem .twoFactorPending) e := by
  unfold redeemsPending at h
  split at h
  next i pendingToken code hash before =>
    simp only [Bool.and_eq_true, decide_eq_true_eq, Option.any_eq_true] at h
    obtain ⟨rfl, t, hget, hvalid⟩ := h
    refine ⟨pendingToken, code, rfl, .link (t := t.markUsed before.now) ?_⟩
    have hkey : t.tokenHash = cx.sha256 pendingToken := Table.key_of_get? hget
    simp [AuthTokenSql.run, Table.find?_key, hget, hvalid]
  next => cases h

end Statements

/-! ## One request -/

/-- Recovery codes are claimed once, and the answer is a token exactly if the pending token
was redeemed. -/
def SecondFactorSteps (cx : Context) : AppEvent → List AppEvent → Prop
  | .ran _ _ (.sql (.recoveryCodes (.claim ..))) _, own => ∀ e ∈ own, claimsCode e = false
  | .answered _ (.twoFactorVerify ..) (.ok response) _, own =>
      (∃ token, response = .token token) ∧ ∃ e ∈ own, redeemsPending cx e = true
  | .answered _ (.twoFactorVerify ..) (.error _) _, own => ∀ e ∈ own, redeemsPending cx e = false
  | _, _ => True

section Handlers

variable {cx : Context}

theorem secondFactorSteps_of_effect {q : Statement} (hq : q.effect ≠ .claimRecoveryCode) (i : ℕ)
    (k : Request) (b : Server) (own : List AppEvent) : SecondFactorSteps cx (.ran i k q b) own := by
  unfold SecondFactorSteps
  split
  next heq =>
    cases heq
    exact absurd rfl hq
  next heq => cases heq
  next heq => cases heq
  next => trivial

theorem not_redeemsPending {i : ℕ} {k : Request} {q : Statement} {b : Server}
    (hq : q.effect ≠ .claimToken .twoFactorPending) : redeemsPending cx (.ran i k q b) = false := by
  unfold redeemsPending
  split
  next heq =>
    cases heq
    exact absurd rfl hq
  next => rfl

/-- The redemption at the end, after the code was accepted. -/
theorem traced_redeemPending {i : ℕ} {pendingToken code : String} {u : User} {own : List AppEvent}
    (hown : ∀ e ∈ own, redeemsPending cx e = false) :
    Traced (machine cx) (SecondFactorSteps cx) i (.twoFactorVerify pendingToken code)
      (do let _ ← OneTimeTokenService.redeem cx .twoFactorPending pendingToken; issueJwt cx u)
      (fun token ↦ Delivers (SecondFactorSteps cx) i (.twoFactorVerify pendingToken code)
        (.ok (.token token)))
      (fun e ↦ Delivers (SecondFactorSteps cx) i (.twoFactorVerify pendingToken code) (.error e))
      own := by
  refine traced_bind.mpr (traced_bind.mpr (traced_sql
    (fun s ↦ secondFactorSteps_of_effect (by simp) _ _ s own) (fun s claimed hclaimed ↦ ?_)
    (fun s hs ↦ by cases hs) fun _ ↦ hown))
  · refine (traced_okOr ..).mpr ⟨fun t ht ↦ ?_, fun hnone _ ↦ ?_⟩
    · obtain ⟨t₀, hget, hvalid, -⟩ := AuthTokenSql.claim_eq_some (hclaimed.trans (congrArg some ht))
      apply traced_bind.mpr
      apply traced_clock
      intro s'
      refine ⟨secondFactorSteps_of_effect (by simp) _ _ s' _, fun s'' ↦ ⟨⟨_, rfl⟩, ?_⟩⟩
      exact ⟨_, List.mem_cons_of_mem _ List.mem_cons_self, by simp [redeemsPending, hget, hvalid]⟩
    · intro e he
      rcases List.mem_cons.mp he with rfl | he
      · have hfind := Option.some.inj hclaimed
        rw [hnone, Option.map_eq_none_iff, Table.find?_key] at hfind
        cases hget : s.db.authTokens.get? (cx.sha256 pendingToken) with
        | none => simp [redeemsPending, hget]
        | some t => simpa [redeemsPending, hget, Option.filter_eq_none_iff] using hfind
      · exact hown e he

theorem traces_twoFactorVerify (pendingToken code : String) :
    Traces (machine cx) (SecondFactorSteps cx) (.twoFactorVerify pendingToken code)
      (handle cx) := by
  intro i
  have clear : ∀ q : Statement, q.effect ≠ .claimToken .twoFactorPending → ∀ (b : Server)
      (own : List AppEvent), (∀ e ∈ own, redeemsPending cx e = false) →
        ∀ e ∈ .ran i (.twoFactorVerify pendingToken code) q b :: own,
          redeemsPending cx e = false := by
    intro q hq b own hown e he
    rcases List.mem_cons.mp he with rfl | he
    · exact not_redeemsPending hq
    · exact hown e he
  have step : ∀ q : Statement, q.effect ≠ .claimRecoveryCode → ∀ (b : Server) (own : List AppEvent),
      SecondFactorSteps cx (.ran i (.twoFactorVerify pendingToken code) q b) own :=
    fun q hq b own ↦ secondFactorSteps_of_effect hq i _ b own
  have nothing : ∀ e ∈ ([] : List AppEvent), redeemsPending cx e = false := by simp
  unfold handle
  refine traced_bind.mpr (traced_bind.mpr (traced_bind.mpr (traced_sql
    (fun s ↦ step _ (by simp) s _) (fun s₁ found _ ↦ ?_) (fun s hs ↦ by cases hs) fun _ ↦ nothing)))
  have h₁ := clear (.sql (.authTokens (.findUnused .twoFactorPending (cx.sha256 pendingToken))))
    (by simp) s₁ [] nothing
  refine (traced_okOr ..).mpr ⟨fun claim _ ↦ ?_, fun _ _ ↦ h₁⟩
  refine traced_bind.mpr (traced_sql (fun s ↦ step _ (by simp) s _) (fun s₂ found _ ↦ ?_)
    (fun s hs ↦ by cases hs) fun _ ↦ h₁)
  have h₂ := clear (.sql (.users (.findById claim.userId))) (by simp) s₂ _ h₁
  refine traced_bind.mpr ((traced_okOr ..).mpr ⟨fun u _ ↦ ?_, fun _ _ ↦ h₂⟩)
  refine traced_bind.mpr ((traced_okOr ..).mpr ⟨fun secret _ ↦ ?_, fun _ _ ↦ h₂⟩)
  refine traced_bind.mpr (traced_bind.mpr ((traced_ask _).mpr ⟨fun s₃ ↦ ⟨step _ (by simp) s₃ _, ?_⟩,
    by rintro _ ⟨⟩⟩))
  have h₃ := clear (.verifyCode secret u.email code) (by simp) s₃ _ h₂
  have redeem : ∀ (valid : Bool) (own : List AppEvent), (∀ e ∈ own, redeemsPending cx e = false) →
      Traced (machine cx) (SecondFactorSteps cx) i (.twoFactorVerify pendingToken code)
        (do
          ensure (valid = true) AuthError.invalidTotpCode.into
          let _ ← OneTimeTokenService.redeem cx .twoFactorPending pendingToken
          issueJwt cx u)
        (fun token ↦ Delivers (SecondFactorSteps cx) i (.twoFactorVerify pendingToken code)
          (.ok (.token token)))
        (fun e ↦ Delivers (SecondFactorSteps cx) i (.twoFactorVerify pendingToken code) (.error e))
        own := by
    intro valid own hown
    exact traced_bind.mpr
      ((traced_ensure ..).mpr ⟨fun _ ↦ traced_redeemPending hown, fun _ _ ↦ hown⟩)
  split
  · exact redeem true _ h₃
  · refine traced_sql (fun s ↦ ?_) (fun s₄ valid _ ↦ redeem valid _ ?_) (fun s hs ↦ by cases hs)
      fun _ ↦ h₃
    · simp [SecondFactorSteps, claimsCode]
    · exact clear (.sql (.recoveryCodes (.claim u.id (cx.sha256 code)))) (by simp) s₄ _ h₃

theorem traces_secondFactorSteps (k : Request) :
    Traces (machine cx) (SecondFactorSteps cx) k (handle cx) := by
  by_cases hk : Effect.claimRecoveryCode ∈ k.effects
  · cases k with
    | twoFactorVerify pendingToken code => exact traces_twoFactorVerify pendingToken code
    | _ => simp at hk
  · refine .of_only (S := fun q ↦ q.effect ≠ .claimRecoveryCode) (handle_only k fun q hq heq ↦ ?_)
      (fun q hq i s own ↦ secondFactorSteps_of_effect hq i k s own) fun i a s own ↦ ?_
    · exact hk (by simpa [heq] using hq)
    · cases k with
      | twoFactorVerify pendingToken code => simp at hk
      | _ => cases a <;> trivial

end Handlers

/-! ## All runs -/

def Request.renewsCodes : Request → Bool
  | .twoFactorEnable .. | .twoFactorDisable .. => true
  | _ => false

section Runs

variable {cx : Context} {s : Server} {c : AppConfig} {u : Uuid}

theorem isAnswer_of_passes {a : AppEvent} (h : passesSecondFactor a = true) :
    a.isAnswer = true := by
  unfold passesSecondFactor at h
  split at h
  · rfl
  · cases h

theorem isAnswer_of_fails {a : AppEvent} (h : failsSecondFactor a = true) : a.isAnswer = true := by
  unfold failsSecondFactor at h
  split at h
  · rfl
  · cases h

theorem not_passes_of_fails {a : AppEvent} (h : failsSecondFactor a = true) :
    passesSecondFactor a = false := by
  unfold failsSecondFactor at h
  split at h
  · rfl
  · cases h

theorem verifies_of_spendsCode (hc : Reached cx s c) {e : AppEvent} (he : e ∈ c.world.history)
    (hspends : spendsCode u e = true) : ∃ pendingToken code,
      e.request = .twoFactorVerify pendingToken code := by
  unfold spendsCode at hspends
  split at hspends
  next i k id hash b =>
    have hmem := hc.effect_mem he
    cases k with
    | twoFactorVerify pendingToken code => exact ⟨pendingToken, code, rfl⟩
    | _ => simp at hmem
  next => cases hspends

/-- A request that spent a code and redeemed its pending token is answered with a token. -/
theorem passes_of_redeemsPending (hc : Reached cx s c) {e r a : AppEvent} (he : e ∈ c.world.history)
    (hr : r ∈ c.world.history) (ha : a ∈ c.world.history) (hspends : spendsCode u e = true)
    (hre : r.tid = e.tid) (hae : a.tid = e.tid) (hredeems : redeemsPending cx r = true)
    (hanswer : a.isAnswer = true) : passesSecondFactor a = true := by
  obtain ⟨pendingToken, code, hrequest⟩ := verifies_of_spendsCode hc he hspends
  rw [← hc.request_eq ha he hae] at hrequest
  obtain ⟨later, earlier, hhist⟩ := List.append_of_mem ha
  have hsteps : SecondFactorSteps cx a (ownEvents a.tid earlier) :=
    Along.of_append (P := AlongOwn (SecondFactorSteps cx))
      (hhist ▸ hc.traces fun k _ ↦ traces_secondFactorSteps k)
  cases a with
  | ran => cases hanswer
  | answered i k answer b =>
      obtain rfl : k = .twoFactorVerify pendingToken code := hrequest
      cases answer with
      | ok response =>
          obtain ⟨⟨token, rfl⟩, -⟩ := hsteps
          rfl
      | error err =>
          rcases hc.mem_earlier hhist hanswer hr (hre.trans hae.symm) with rfl | hmem
          · cases hredeems
          · have hnot := hsteps r (mem_ownEvents.mpr ⟨hmem, hre.trans hae.symm⟩)
            simp [hredeems] at hnot

/-- Behind every token of a second factor is the redemption of its pending token. -/
theorem consumed_of_passes (hc : Reached cx s c) {a : AppEvent} (ha : a ∈ c.world.history)
    (hpasses : passesSecondFactor a = true) {pendingToken code : String}
    (hrequest : a.request = .twoFactorVerify pendingToken code) :
    ∃ r ∈ c.world.history, r.tid = a.tid ∧
      Consumed (.link (cx.sha256 pendingToken)) (.redeem .twoFactorPending) r := by
  obtain ⟨later, earlier, hhist⟩ := List.append_of_mem ha
  have hsteps : SecondFactorSteps cx a (ownEvents a.tid earlier) :=
    Along.of_append (P := AlongOwn (SecondFactorSteps cx))
      (hhist ▸ hc.traces fun k _ ↦ traces_secondFactorSteps k)
  unfold passesSecondFactor at hpasses
  split at hpasses
  next i pendingToken' code' token b =>
    obtain ⟨-, r, hown, hredeems⟩ := hsteps
    obtain ⟨hmem, htid⟩ := mem_ownEvents.mp hown
    have hr : r ∈ c.world.history := by simp [hhist, hmem]
    obtain ⟨pendingToken'', code'', hreq, hconsumed⟩ := consumed_of_redeemsPending hredeems
    have hsame := (hc.request_eq hr ha htid).symm.trans hreq
    obtain ⟨rfl, -⟩ : pendingToken = pendingToken'' ∧ code = code'' := by
      simpa [hrequest] using hsame
    exact ⟨r, hr, htid, hconsumed⟩
  next => cases hpasses

/-- A request spends one code at most. -/
theorem Reached.spends_once (hc : Reached cx s c) : c.world.history.Pairwise fun e₂ e₁ ↦
    ¬(spendsCode u e₁ = true ∧ spendsCode u e₂ = true ∧ e₁.tid = e₂.tid) := by
  have hclaims : ∀ {e : AppEvent}, spendsCode u e = true → claimsCode e = true := by
    intro e he
    unfold spendsCode at he
    split at he
    · rfl
    · cases he
  refine pairwise_of_split fun later e₂ mid e₁ earlier hhist ↦ ?_
  rintro ⟨h₁, h₂, htid⟩
  have hsteps : SecondFactorSteps cx e₂ (ownEvents e₂.tid (mid ++ e₁ :: earlier)) :=
    Along.of_append (P := AlongOwn (SecondFactorSteps cx))
      (hhist ▸ hc.traces fun k _ ↦ traces_secondFactorSteps k)
  unfold spendsCode at h₂
  split at h₂
  next i k id hash b =>
    have hnot : claimsCode e₁ = false := hsteps e₁ (mem_ownEvents.mpr ⟨by simp, htid⟩)
    simp [hclaims h₁] at hnot
  next => cases h₂

theorem Reachable.usedCodes_eq
    (hc : Reachable (machine cx) (handle cx) (fun k ↦ k.renewsCodes = false) s c)
    (hdistinct : DistinctCodes u s.db.recoveryCodes) :
    usedCodes u c.world.store = usedCodes u s + c.world.history.countP (spendsCode u) := by
  have hquiet : ∀ e ∈ c.world.history, ¬e.Ran fun q _ ↦ q.effect = .renewRecoveryCodes := by
    intro e he hrenews
    cases e with
    | answered => exact hrenews
    | ran i k q b =>
        obtain ⟨hk, hmem⟩ := hc.ran_only (S := fun k q ↦ q.effect ∈ .none :: k.effects)
          (fun k _ ↦ handle_only k fun _ hq ↦ hq) i k q b he
        rw [show q.effect = .renewRecoveryCodes from hrenews] at hmem
        cases k <;> simp [Request.renewsCodes] at hk hmem
  refine (hc.world_induction (P := fun W ↦
    (∀ e ∈ W.history, ¬e.Ran fun q _ ↦ q.effect = .renewRecoveryCodes) →
      usedCodes u W.store = usedCodes u s + W.history.countP (spendsCode u) ∧
        DistinctCodes u W.store.db.recoveryCodes) ?_ ?_ ?_ ?_ hquiet).1
  · exact fun _ ↦ ⟨rfl, hdistinct⟩
  · intro i k q W ih hquiet
    obtain ⟨hcount, hcodes⟩ := ih fun e he ↦ hquiet e (List.mem_cons_of_mem _ he)
    obtain ⟨hstep, hcodes'⟩ := usedCodes_exec cx (hquiet _ List.mem_cons_self) hcodes i k
    refine ⟨?_, hcodes'⟩
    rw [World.ran_store, World.ran_history, List.countP_cons, hstep, hcount]
    omega
  · intro i k a W ih hquiet
    have hW := ih fun e he ↦ hquiet e (List.mem_cons_of_mem _ he)
    simpa [spendsCode] using hW
  · exact fun x W ih hquiet ↦ ih hquiet

theorem recovery_codes_pay_off
    (hc : Reachable (machine cx) (handle cx) (fun k ↦ k.renewsCodes = false) s c)
    (hdistinct : DistinctCodes u s.db.recoveryCodes)
    (hfresh : ∀ pendingToken, cx.FreshFor (.link (cx.sha256 pendingToken)) s c.world.store.draws)
    (hredeem : SpendersRedeem cx u c.world.history) : CodesPayOff u s c.world := by
  have hc' : Reached cx s c := hc.mono fun _ _ ↦ trivial
  have paid : ∀ e ∈ c.world.history, spendsCode u e = true →
      ∃ a ∈ c.world.history, a.tid = e.tid ∧ passesSecondFactor a = true := by
    intro e he hspends
    obtain ⟨⟨r, hr, hre, hredeems⟩, a, ha, hae, hanswer⟩ := hredeem e he hspends
    exact ⟨a, ha, hae, passes_of_redeemsPending hc' he hr ha hspends hre hae hredeems hanswer⟩
  constructor
  case spentForToken =>
    intro hash hused hbefore
    obtain ⟨mid, e, earlier, hhist, hrise, -⟩ :=
      hc.rises_of_live (codeUsed u hash) (fun _ _ ↦ Iff.rfl) hbefore hused
    cases e with
    | answered => exact hrise.elim
    | ran i k q b =>
        have he : .ran i k q b ∈ c.world.history := by simp [hhist]
        have hspends := spendsCode_of_rises hrise (i := i) (k := k)
        exact ⟨_, he, hspends, paid _ he hspends⟩
  case tokenOnce =>
    intro pendingToken
    have honce := (secret_honoured_once hc' (hfresh pendingToken)).once
    refine List.Pairwise.imp_of_mem (fun {a₂ a₁} ha₂ ha₁ hnot ↦ ?_) hc.answered_once
    rintro ⟨⟨hpasses₁, code₁, hrequest₁⟩, hpasses₂, code₂, hrequest₂⟩
    obtain ⟨r₁, hr₁, htid₁, hconsumed₁⟩ := consumed_of_passes hc' ha₁ hpasses₁ hrequest₁
    obtain ⟨r₂, hr₂, htid₂, hconsumed₂⟩ := consumed_of_passes hc' ha₂ hpasses₂ hrequest₂
    have hsame : r₁ = r₂ := honce.eq hr₁ hr₂ ⟨_, hconsumed₁⟩ ⟨_, hconsumed₂⟩
    exact hnot ⟨isAnswer_of_passes hpasses₁,
      isAnswer_of_passes hpasses₂, by rw [← htid₁, hsame, htid₂]⟩
  case balance =>
    rw [Reachable.usedCodes_eq hc hdistinct]
    congr 1
    have honce : c.world.history.Pairwise fun a₂ a₁ ↦
        ¬((passesSecondFactor a₁ && c.world.history.any fun e ↦
            decide (e.tid = a₁.tid) && spendsCode u e) = true ∧
          (passesSecondFactor a₂ && c.world.history.any fun e ↦
            decide (e.tid = a₂.tid) && spendsCode u e) = true ∧ a₁.tid = a₂.tid) := by
      refine hc.answered_once.imp fun hnot ↦ ?_
      rintro ⟨h₁, h₂, htid⟩
      rw [Bool.and_eq_true] at h₁ h₂
      exact hnot ⟨isAnswer_of_passes h₁.1, isAnswer_of_passes h₂.1, htid⟩
    refine countP_eq_of_tids hc'.spends_once honce fun i ↦ ⟨?_, ?_⟩
    · rintro ⟨e, he, hspends, rfl⟩
      obtain ⟨a, ha, htid, hpasses⟩ := paid e he hspends
      refine ⟨a, ha, ?_, htid⟩
      rw [Bool.and_eq_true]
      exact ⟨hpasses, List.any_eq_true.mpr ⟨e, he, by simp [htid, hspends]⟩⟩
    · rintro ⟨a, ha, hboth, rfl⟩
      rw [Bool.and_eq_true] at hboth
      obtain ⟨e, he, hspends⟩ := List.any_eq_true.mp hboth.2
      rw [Bool.and_eq_true, decide_eq_true_eq] at hspends
      exact ⟨e, he, hspends.2, hspends.1⟩
  case failedSpendsNothing =>
    intro a ha hfails e he htid
    by_contra hspends
    rw [Bool.not_eq_false] at hspends
    obtain ⟨a', ha', htid', hpasses⟩ := paid e he hspends
    obtain rfl : a' = a := hc.answer_eq ha' ha (isAnswer_of_passes hpasses)
      (isAnswer_of_fails hfails) (htid'.trans htid)
    simp [not_passes_of_fails hfails] at hpasses

end Runs

/-! ## A code spent for nothing -/

/-- Before the first draw every link is fresh. -/
theorem Context.freshFor_link (cx : Context) (hash : String) (s : Server) :
    cx.FreshFor (.link hash) s 0 := by
  refine ⟨fun m n hm ↦ absurd hm (Nat.not_lt_zero m), fun t₁ ht₁ t₂ ht₂ ↦ ?_,
    fun _ n hn ↦ absurd hn (Nat.not_lt_zero n)⟩
  obtain ⟨r₁, hr₁, -, rfl⟩ := mem_openTerms_link.mp ht₁
  obtain ⟨r₂, hr₂, -, rfl⟩ := mem_openTerms_link.mp ht₂
  obtain rfl : r₁ = r₂ := Option.some.inj (hr₁.symm.trans hr₂)
  rfl

def Request.verifiesSecondFactor : Request → Bool
  | .twoFactorVerify .. => true
  | _ => false

namespace RecoverySample

open Sample

/-- Ada has given her password and has two recovery codes. -/
def start : Server where
  db := { Db.empty with
    users := .single { account 1 "ada@example.com" .user with
      totpSecret := some "SECRET100000", totpEnabled := true }
    authTokens := .single ⟨1, .twoFactorPending, "sha256:pending", none, Time.minutes 5, none, 0⟩
    recoveryCodes := [⟨1, "sha256:first", none, 0⟩, ⟨1, "sha256:second", none, 0⟩] }
  now := 0
  draws := 0
  mails := []

theorem distinct : DistinctCodes 1 start.db.recoveryCodes := by
  simp [DistinctCodes, start]

def alone : List (Action Request ℕ) := Sample.alone 0 (.twoFactorVerify "pending" "first") 6

/-- Two attempts share the pending token, and both have spent a code when the first redeems it. -/
def shared : List (Action Request ℕ) :=
  [.start (.twoFactorVerify "pending" "first"), .start (.twoFactorVerify "pending" "second")] ++
    List.replicate 4 (.run 0) ++ List.replicate 4 (.run 1) ++ [.run 0, .run 0, .answer 0] ++
      [.run 1, .answer 1]

end RecoverySample

theorem recovery_codes_pay_off_alone :
    ∃ c, Reached .sample RecoverySample.start c ∧ usedCodes 1 c.world.store = 1 ∧
      CodesPayOff 1 RecoverySample.start c.world := by
  let test : AppConfig → Bool := fun c ↦ decide (c.world.store.draws = 0) &&
    (decide (usedCodes 1 c.world.store = 1) && decide (SpendersRedeem .sample 1 c.world.history))
  obtain ⟨c, hc, htest⟩ : ∃ c, Reachable (machine .sample) (handle .sample)
      (fun k ↦ k.renewsCodes = false) RecoverySample.start c ∧ test c = true :=
    Reachable.of_schedule RecoverySample.alone test (by decide) (by decide)
  simp only [test, Bool.and_eq_true, decide_eq_true_eq] at htest
  obtain ⟨hdraws, hused, hredeem⟩ := htest
  refine ⟨c, hc.mono fun _ _ ↦ trivial, hused, recovery_codes_pay_off hc RecoverySample.distinct
    (fun pendingToken ↦ ?_) hredeem⟩
  rw [hdraws]
  exact Context.freshFor_link _ _ _

/-- Of two attempts that share a pending token one fails with its recovery code spent. -/
theorem failed_attempt_spends_code :
    ¬∀ (cx : Context) (s : Server) (c : AppConfig) (u : Uuid),
      Reachable (machine cx) (handle cx) (fun k ↦ k.verifiesSecondFactor = true) s c →
        DistinctCodes u s.db.recoveryCodes →
          (∀ pendingToken, cx.FreshFor (.link (cx.sha256 pendingToken)) s c.world.store.draws) →
            (∀ t ∈ c.pool, t.rest.isNone = true) → CodesPayOff u s c.world := by
  intro h
  let test : AppConfig → Bool := fun c ↦ decide (c.world.store.draws = 0) &&
    ((c.pool.all fun t ↦ t.rest.isNone) && c.world.history.any fun a ↦ failsSecondFactor a &&
      c.world.history.any fun e ↦ decide (e.tid = a.tid) && spendsCode 1 e)
  obtain ⟨c, hc, htest⟩ : ∃ c, Reachable (machine .sample) (handle .sample)
      (fun k ↦ k.verifiesSecondFactor = true) RecoverySample.start c ∧ test c = true :=
    Reachable.of_schedule RecoverySample.shared test (by decide) (by decide)
  simp only [test, Bool.and_eq_true, decide_eq_true_eq, List.all_eq_true, List.any_eq_true] at htest
  obtain ⟨hdraws, hdone, a, ha, hfails, e, he, htid, hspends⟩ := htest
  have hpays := h .sample _ c 1 hc RecoverySample.distinct (fun pendingToken ↦ by
    rw [hdraws]
    exact Context.freshFor_link _ _ _) hdone
  have hnot := hpays.failedSpendsNothing a ha hfails e he htid
  simp [hspends] at hnot

end ApiStarter
