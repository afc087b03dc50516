import ApiStarter.Calls
import Mathlib.Data.List.TakeWhile

/-!
# Emailed links and credential changes

Reset links and email-change links live in one table.  A reset retires the
unused reset links of its account and a confirmed email change the unused
email-change links; neither touches the other kind, and a password change while
signed in touches none.
-/

namespace ApiStarter

open Interleave Interleave.Prog Relational

/-! ## The rows behind links -/

/-- A property of the stored token with this hash. -/
def linkIs (hash : String) (p : AuthToken → Bool) (s : Server) : Prop :=
  ∃ t, s.db.authTokens.get? hash = some t ∧ p t = true

/-- Issuing a link under this hash. -/
def issuesLink (hash : String) : AppEvent → Bool
  | .ran _ _ (.sql (.authTokens (.insert _ _ hash' _ _))) _ => decide (hash' = hash)
  | _ => false

section Rows

variable {cx : Context} {hash : String} {u : Uuid} {purpose : TokenPurpose} {s : Server}

/-- A token becomes unused only by being issued. -/
theorem insert_of_unused_rises {p : AuthToken → Bool} {q : Statement}
    (hp : ∀ (t : AuthToken) now, p (t.markUsed now) = false)
    (h : Rises (machine cx) (linkIs hash p) q s) :
    ∃ userId purpose newEmail expiresAt,
      q = .sql (.authTokens (.insert userId purpose hash newEmail expiresAt)) ∧
        p ⟨userId, purpose, hash, newEmail, expiresAt, none, s.now⟩ = true := by
  obtain ⟨hbefore, t', ht', hafter⟩ := h
  have hsame : ¬s.db.authTokens.get? hash = some t' := fun ht ↦ hbefore ⟨t', ht, hafter⟩
  cases q with
  | sql q =>
      cases q with
      | authTokens q =>
          cases ht : s.db.authTokens.get? hash with
          | none =>
              obtain ⟨userId, purpose, newEmail, expiresAt, rfl, rfl⟩ :=
                AuthTokenSql.get?_run_none ht ht'
              exact ⟨userId, purpose, newEmail, expiresAt, rfl, hafter⟩
          | some t =>
              exfalso
              rcases AuthTokenSql.get?_run ht ht' with rfl | rfl
              · exact hsame ht
              · simp [hp] at hafter
      | _ => exact absurd ht' hsame
  | _ => exact absurd ht' hsame

theorem AuthToken.not_isUnused_markUsed (t : AuthToken) (now : Time) :
    (t.markUsed now).isUnused u purpose = false := by
  simp [isUnused, markUsed]

theorem issuesLink_of_rises {i : ℕ} {k : Request} {q : Statement}
    (h : Rises (machine cx) (linkIs hash (AuthToken.isUnused u purpose)) q s) :
    issuesLink hash (.ran i k q s) = true := by
  obtain ⟨_, _, _, _, rfl, -⟩ := insert_of_unused_rises AuthToken.not_isUnused_markUsed h
  simp [issuesLink]

theorem ends_invalidateUnused : Ends (machine cx) (linkIs hash (AuthToken.isUnused u purpose))
    (.sql (.authTokens (.invalidateUnused u purpose))) s := by
  rintro ⟨t', ht', hopen⟩
  cases ht : s.db.authTokens.get? hash with
  | none =>
      obtain ⟨_, _, _, _, heq, -⟩ := AuthTokenSql.get?_run_none ht ht'
      cases heq
  | some t =>
      have hget := (AuthTokenSql.get?_invalidateUnused s.now ht u purpose).symm.trans ht'
      rw [Option.some.injEq] at hget
      subst hget
      split at hopen
      · simp [AuthToken.isUnused, AuthToken.markUsed] at hopen
      · simp_all

end Rows

/-! ## Requests that use links -/

def Statement.credentialOf : Statement → Option Uuid
  | .sql (.users (.setPasswordHash id _)) => some id
  | .sql (.users (.changeEmail id _)) => some id
  | _ => none

/-- The link a request redeems to change a credential: its kind and the hash it is stored under. -/
def linkOf (cx : Context) : Request → Option (TokenPurpose × String)
  | .resetPassword token _ => some (.passwordReset, cx.sha256 token)
  | .confirmEmailChange token => some (.emailChange, cx.sha256 token)
  | _ => none

def claimsLink : AppEvent → Bool
  | .ran _ _ (.sql (.authTokens (.claim ..))) _ => true
  | _ => false

def Event.credentialOf : AppEvent → Option Uuid
  | .ran _ _ q _ => q.credentialOf
  | .answered .. => none

/-- A change through a link follows the link's redemption, and a success answer follows the
retirement of the account's other links of that kind. -/
def LinkSteps (cx : Context) : AppEvent → List AppEvent → Prop
  | .ran i k q _, earlier => ∀ purpose hash u, linkOf cx k = some (purpose, hash) →
      q.credentialOf = some u → ∃ since b t,
        ownEvents i earlier = since ++ [.ran i k (.sql (.authTokens (.claim purpose hash))) b] ∧
          (∀ e ∈ since, claimsLink e = false) ∧
            b.db.authTokens.get? hash = some t ∧ t.isRedeemable purpose b.now = true ∧ t.userId = u
  | .answered i k (.ok _) _, earlier => ∀ purpose hash, linkOf cx k = some (purpose, hash) →
      ∃ since u b before,
        ownEvents i earlier =
          since ++ .ran i k (.sql (.authTokens (.invalidateUnused u purpose))) b :: before ∧
            (∀ e ∈ since, Event.credentialOf e = none) ∧
              ∀ e ∈ before, ∀ v, Event.credentialOf e = some v → v = u
  | _, _ => True

section Handlers

variable {cx : Context}

theorem keeps_linkSteps {q : Statement} (hq : q.credentialOf = none) (i : ℕ) (k : Request)
    (W : AppWorld) (hW : (Discipline.along (LinkSteps cx)).Inv W) :
    (Discipline.along (LinkSteps cx)).Keeps W (W.ran (machine cx) i k q) :=
  Discipline.keeps_along_ran.mpr ⟨fun _ _ u _ hu ↦ by simp [hq] at hu, hW⟩

theorem credentialOf_of_effect {q : Statement} (hq : q.effect = .none) : q.credentialOf = none := by
  unfold Statement.credentialOf
  split
  next => simp at hq
  next => simp at hq
  next => rfl

theorem claimsLink_of_effect {q : Statement} (hq : q.effect = .none) (i : ℕ) (k : Request)
    (b : Server) : claimsLink (.ran i k q b) = false := by
  unfold claimsLink
  split
  next heq =>
    cases heq
    simp at hq
  next => rfl

theorem quiet_linkSteps : Quiet cx (.along (LinkSteps cx)) := fun _ hq i k W hW ↦
  keeps_linkSteps (credentialOf_of_effect hq) i k W hW

/-- Since thread `i` redeemed a link it has neither redeemed another nor changed a credential. -/
def RedeemedOnly (i : ℕ) (claim : AppEvent) (W : AppWorld) : Prop :=
  ∃ since, ownEvents i W.history = since ++ [claim] ∧
    ∀ e ∈ since, claimsLink e = false ∧ Event.credentialOf e = none

theorem RedeemedOnly.evolve {i : ℕ} {claim : AppEvent} {W W' : AppWorld} {D : AppDiscipline}
    (h : RedeemedOnly i claim W) (hW' : D.Evolves i W W') : RedeemedOnly i claim W' := by
  obtain ⟨since, hown, hsince⟩ := h
  exact ⟨since, by rw [hW'.ownEvents_eq, hown], hsince⟩

theorem RedeemedOnly.ran {i : ℕ} {k : Request} {claim : AppEvent} {q : Statement} {W : AppWorld}
    (h : RedeemedOnly i claim W) (hq : q.effect = .none) :
    RedeemedOnly i claim (W.ran (machine cx) i k q) := by
  obtain ⟨since, hown, hsince⟩ := h
  refine ⟨.ran i k q W.store :: since, ?_, fun e he ↦ ?_⟩
  · rw [ownEvents_ran, hown, List.cons_append]
  · rcases List.mem_cons.mp he with rfl | he
    · exact ⟨claimsLink_of_effect hq i k _, credentialOf_of_effect hq⟩
    · exact hsince e he

/-- Thread `i` has changed no credential but the ones of `u`. -/
def ChangedOnly (i : ℕ) (u : Uuid) (W : AppWorld) : Prop :=
  ∀ e ∈ ownEvents i W.history, ∀ v, Event.credentialOf e = some v → v = u

theorem ChangedOnly.evolve {i : ℕ} {u : Uuid} {W W' : AppWorld} {D : AppDiscipline}
    (h : ChangedOnly i u W) (hW' : D.Evolves i W W') : ChangedOnly i u W' := by
  unfold ChangedOnly
  rwa [hW'.ownEvents_eq]

theorem ChangedOnly.ran {i : ℕ} {k : Request} {q : Statement} {u : Uuid} {W : AppWorld}
    (h : ChangedOnly i u W) (hq : ∀ v, q.credentialOf = some v → v = u) :
    ChangedOnly i u (W.ran (machine cx) i k q) := by
  intro e he v hv
  rw [ownEvents_ran] at he
  rcases List.mem_cons.mp he with rfl | he
  · exact hq v hv
  · exact h e he v hv

theorem RedeemedOnly.changedOnly {i : ℕ} {claim : AppEvent} {W : AppWorld} (u : Uuid)
    (h : RedeemedOnly i claim W) (hclaim : Event.credentialOf claim = none) :
    ChangedOnly i u W := by
  obtain ⟨since, hown, hsince⟩ := h
  intro e he v hv
  rw [hown] at he
  rcases List.mem_append.mp he with he | he
  · simp [(hsince e he).2] at hv
  · obtain rfl := List.mem_singleton.mp he
    simp [hclaim] at hv

/-- A part of a handler that neither redeems links nor changes credentials. -/
theorem wp_redeemedOnly {α : Type} {i : ℕ} {k : Request} {claim : AppEvent} {p : Req α}
    {Q : α → AppWorld → Prop} {E : AppError → AppWorld → Prop} {W : AppWorld}
    (hE : ∀ e W, (Discipline.along (LinkSteps cx)).Inv W → E e W)
    (hp : p.Only fun q ↦ q.effect = .none) (hW : (Discipline.along (LinkSteps cx)).Inv W)
    (hclaim : RedeemedOnly i claim W)
    (hQ : ∀ a W, (Discipline.along (LinkSteps cx)).Inv W → RedeemedOnly i claim W → Q a W) :
    wp (machine cx) (.along (LinkSteps cx)) i k p Q E W := by
  refine (wp_stable hp (A := RedeemedOnly i claim) (fun q hq W hW h ↦ ?_)
    (fun _ _ hW' h ↦ h.evolve hW')
    hW hclaim).mono (fun a W h ↦ hQ a W h.1 h.2) fun e W h ↦ hE e W h.1
  exact ⟨quiet_linkSteps q hq i k W hW, h.ran hq⟩

theorem linkSteps_error (e : AppError) (i : ℕ) (k : Request) (W : AppWorld) :
    Answers (.along (LinkSteps cx)) i k (.error e) W := fun _ hW' ↦
  Discipline.keeps_along_answered.mpr ⟨trivial, hW'.inv⟩

/-- The redemption with which both requests begin. -/
theorem wp_redeem {i : ℕ} {k : Request} {purpose : TokenPurpose} {raw : String} {W : AppWorld}
    {Q : AuthToken → AppWorld → Prop} {E : AppError → AppWorld → Prop}
    (hE : ∀ e W, (Discipline.along (LinkSteps cx)).Inv W → E e W)
    (hfresh : ∀ e ∈ W.history, e.tid < i)
    (hQ : ∀ (b : Server) (t t' : AuthToken) (W₁ : AppWorld),
      b.db.authTokens.get? (cx.sha256 raw) = some t →
      t.isRedeemable purpose b.now = true → t'.userId = t.userId →
        (Discipline.along (LinkSteps cx)).Inv W₁ →
          RedeemedOnly i (.ran i k (.sql (.authTokens (.claim purpose (cx.sha256 raw)))) b) W₁ →
            Q t' W₁) :
    wp (machine cx) (.along (LinkSteps cx)) i k
      (OneTimeTokenService.redeem cx purpose raw) Q E W := by
  refine wp_bind.mpr (wp_sql hE (fun W' hW' ↦ keeps_linkSteps rfl i k W' hW'.inv)
    fun W' _ hW' hr hInv ↦ wp_unwrap hE hInv fun t' ht' ↦ ?_)
  obtain ⟨t, hget, hvalid, rfl⟩ := AuthTokenSql.claim_eq_some (hr.trans (congrArg some ht'))
  refine hQ W'.store t _ _ hget hvalid rfl hInv ⟨[], ?_, by simp⟩
  rw [ownEvents_ran, hW'.ownEvents_eq, ownEvents_of_lt hfresh, List.nil_append]

/-- Changing the credential the redeemed link stands for. -/
theorem keeps_credential {i : ℕ} {k : Request} {purpose : TokenPurpose} {hash : String}
    {b : Server} {t : AuthToken} {W : AppWorld} {q : Statement}
    (hlink : linkOf cx k = some (purpose, hash)) (hget : b.db.authTokens.get? hash = some t)
    (hvalid : t.isRedeemable purpose b.now = true) (hq : q.credentialOf = some t.userId)
    (hW : (Discipline.along (LinkSteps cx)).Inv W)
    (hclaim : RedeemedOnly i (.ran i k (.sql (.authTokens (.claim purpose hash))) b) W) :
    (Discipline.along (LinkSteps cx)).Keeps W (W.ran (machine cx) i k q) := by
  refine Discipline.keeps_along_ran.mpr ⟨fun purpose' hash' u hlink' hu ↦ ?_, hW⟩
  obtain ⟨rfl, rfl⟩ : purpose = purpose' ∧ hash = hash' := by simpa [hlink] using hlink'
  obtain ⟨since, hown, hsince⟩ := hclaim
  exact ⟨since, b, t, hown, fun e he ↦ (hsince e he).1, hget, hvalid,
    Option.some.inj (hq.symm.trans hu)⟩

/-- The success answer after the account's other links were retired. -/
theorem answers_retired {i : ℕ} {k : Request} {purpose : TokenPurpose}
    {hash : String} {a : Response}
    {u : Uuid} {W W' : AppWorld} (since : List AppEvent)
    (hlink : linkOf cx k = some (purpose, hash)) (hW' : (Discipline.along (LinkSteps cx)).Inv W')
    (hown : ownEvents i W'.history = since ++
      .ran i k (.sql (.authTokens (.invalidateUnused u purpose))) W.store :: ownEvents i W.history)
    (hsince : ∀ e ∈ since, Event.credentialOf e = none) (hchanged : ChangedOnly i u W) :
    (Discipline.along (LinkSteps cx)).Keeps W' (W'.answered i k (.ok a)) := by
  refine Discipline.keeps_along_answered.mpr ⟨fun purpose' hash' hlink' ↦ ?_, hW'⟩
  obtain ⟨rfl, rfl⟩ : purpose = purpose' ∧ hash = hash' := by simpa [hlink] using hlink'
  exact ⟨since, u, W.store, _, hown, hsince, hchanged⟩

theorem handles_confirmEmailChange (raw : String) :
    Handles (machine cx) (.along (LinkSteps cx)) (.confirmEmailChange raw) (handle cx) := by
  intro i W hW hfresh
  have hE : ∀ (e : AppError) (W : AppWorld), (Discipline.along (LinkSteps cx)).Inv W →
      Answers (.along (LinkSteps cx)) i (.confirmEmailChange raw) (.error e) W :=
    fun e W _ ↦ linkSteps_error e i _ W
  refine wp_bind.mpr (wp_bind.mpr (wp_redeem hE hfresh fun b t t' W₁ hget hvalid huser hW₁ h₁ ↦ ?_))
  refine wp_bind.mpr (wp_unwrap hE hW₁ fun newEmail _ ↦ wp_bind.mpr (wp_bind.mpr ?_))
  refine wp_sql hE (fun W₂ h₂ ↦ ?_) fun W₂ changed h₂ _ hInv₂ ↦ ?_
  · exact keeps_credential rfl hget hvalid (congrArg some huser) h₂.inv (h₁.evolve h₂)
  have hchanged : ChangedOnly i t'.userId (W₂.ran (machine cx) i (.confirmEmailChange raw)
      (.sql (.users (.changeEmail t'.userId (cx.normalizeEmail newEmail))))) :=
    ((h₁.evolve h₂).changedOnly _ rfl).ran fun v hv ↦ (Option.some.inj hv).symm
  cases changed with
  | error e => exact hE _ _ hInv₂
  | ok done =>
      refine wp_sql hE (fun W₃ h₃ ↦ keeps_linkSteps rfl i _ W₃ h₃.inv) fun W₃ _ h₃ _ hInv₃ W₄ h₄ ↦
        ?_
      refine answers_retired [] rfl h₄.inv ?_ (by simp) (hchanged.evolve h₃)
      rw [h₄.ownEvents_eq, ownEvents_ran, List.nil_append]

theorem handles_resetPassword (raw newPassword : String) :
    Handles (machine cx) (.along (LinkSteps cx)) (.resetPassword raw newPassword) (handle cx) := by
  intro i W hW hfresh
  have hE : ∀ (e : AppError) (W : AppWorld), (Discipline.along (LinkSteps cx)).Inv W →
      Answers (.along (LinkSteps cx)) i (.resetPassword raw newPassword) (.error e) W :=
    fun e W _ ↦ linkSteps_error e i _ W
  refine wp_bind.mpr (wp_bind.mpr (wp_redeem hE hfresh fun b t t' W₁ hget hvalid huser hW₁ h₁ ↦ ?_))
  rw [← Prog.bind_assoc]
  refine wp_bind.mpr (wp_findUser hE quiet_linkSteps fun W₂ user h₂ _ hid _ _ hInv₂ ↦ ?_)
  have h₂ : RedeemedOnly i _ (W₂.ran (machine cx) i (.resetPassword raw newPassword)
    (.sql (.users (.findById t'.userId)))) := (h₁.evolve h₂).ran rfl
  refine wp_bind.mpr (wp_bind.mpr (wp_redeemedOnly hE ?_ hInv₂ h₂ fun account W₃ hW₃ h₃ ↦ ?_))
  · simp [UsersService.require]
  refine wp_bind.mpr (wp_redeemedOnly hE only_rejectPasswordIfPolicyViolation hW₃ h₃
    fun _ W₄ hW₄ h₄ ↦ ?_)
  refine wp_bind.mpr (wp_redeemedOnly hE ?_ hW₄ h₄ fun hash W₅ hW₅ h₅ ↦ ?_)
  · simp [hashBlocking]
  refine wp_sql hE (fun W₆ h₆ ↦ ?_) fun W₆ _ h₆ _ hInv₆ ↦ ?_
  · refine keeps_credential rfl hget hvalid ?_ h₆.inv (h₅.evolve h₆)
    rw [← huser, ← hid]
    rfl
  have hchanged : ChangedOnly i user.id (W₆.ran (machine cx) i (.resetPassword raw newPassword)
      (.sql (.users (.setPasswordHash user.id hash)))) :=
    ((h₅.evolve h₆).changedOnly _ rfl).ran fun v hv ↦ (Option.some.inj hv).symm
  refine wp_bind.mpr (wp_sql hE (fun W₇ h₇ ↦ keeps_linkSteps rfl i _ W₇ h₇.inv)
    fun W₇ _ h₇ _ hInv₇ ↦ ?_)
  have hchanged : ChangedOnly i user.id (W₇.ran (machine cx) i (.resetPassword raw newPassword)
      (.sql (.users (.markEmailVerified user.id)))) :=
    (hchanged.evolve h₇).ran (by simp [Statement.credentialOf])
  refine wp_bind.mpr (wp_sql hE (fun W₈ h₈ ↦ keeps_linkSteps rfl i _ W₈ h₈.inv)
    fun W₈ _ h₈ _ hInv₈ ↦ ?_)
  refine (wp_ask _).mpr fun W₉ h₉ ↦
    ⟨⟨keeps_linkSteps rfl i _ W₉ h₉.inv, fun W₁₀ h₁₀ ↦ ?_⟩, by rintro _ ⟨⟩⟩
  refine answers_retired [.ran i (.resetPassword raw newPassword)
    (.mail (.passwordChanged user.email)) W₉.store] rfl h₁₀.inv ?_ ?_ (hchanged.evolve h₈)
  · rw [h₁₀.ownEvents_eq, ownEvents_ran, h₉.ownEvents_eq, ownEvents_ran]
    rfl
  · simp [Event.credentialOf, Statement.credentialOf]

theorem handles_linkSteps (k : Request) : Handles (machine cx) (.along (LinkSteps cx)) k
    (handle cx) := by
  have unlinked : ∀ k, linkOf cx k = none → Handles (machine cx) (.along (LinkSteps cx)) k
      (handle cx) := by
    intro k hk
    refine .of_only (only_true _) (fun q _ i W hW ↦ ?_) fun a i W hW ↦ ?_
    · exact Discipline.keeps_along_ran.mpr ⟨fun _ _ _ hlink ↦ by simp [hk] at hlink, hW⟩
    · refine Discipline.keeps_along_answered.mpr ⟨?_, hW⟩
      cases a with
      | error e => trivial
      | ok response => exact fun _ _ hlink ↦ by simp [hk] at hlink
  cases k with
  | resetPassword raw newPassword => exact handles_resetPassword raw newPassword
  | confirmEmailChange raw => exact handles_confirmEmailChange raw
  | _ => exact unlinked _ rfl

end Handlers

/-! ## All runs -/

/-- The statement changed the password or the email address of `u`. -/
def changesCredential (u : Uuid) : AppEvent → Bool
  | .ran _ _ (.sql (.users (.setPasswordHash id _))) before =>
      decide (id = u) && (before.db.users.find? (liveId u)).isSome
  | .ran _ _ (.sql (.users (.changeEmail id newEmail))) before =>
      decide (id = u) && (before.db.users.find? (liveId u)).isSome &&
        (before.db.users.find? fun row ↦
          decide (row.email = newEmail) && row.isLive && decide (row.id ≠ u)).isNone
  | _ => false

/-- A reset, a password change or an email change succeeds. -/
def completesChange : AppEvent → Bool
  | .answered _ (.resetPassword ..) (.ok _) _ => true
  | .answered _ (.changePassword ..) (.ok _) _ => true
  | .answered _ (.confirmEmailChange _) (.ok _) _ => true
  | _ => false

/-- What happened since the link with this hash was issued. -/
def sinceIssued (hash : String) (h : List AppEvent) : List AppEvent :=
  h.takeWhile fun e ↦ !issuesLink hash e

/-- No link changes a credential of `u` once a credential change of `u`, made after the link
was issued, has succeeded. -/
def OldLinksDead (cx : Context) (u : Uuid) (W : AppWorld) : Prop :=
  ∀ later i k q b earlier purpose hash, W.history = later ++ .ran i k q b :: earlier →
    linkOf cx k = some (purpose, hash) → changesCredential u (.ran i k q b) = true →
      ∀ newer done older change, sinceIssued hash earlier = newer ++ done :: older →
        completesChange done = true → change ∈ older → change.tid = done.tid →
          changesCredential u change = false

/-- `done` is the success of a credential change of `u` that was made in this stretch. -/
def completedIn (u : Uuid) (stretch : List AppEvent) (done : AppEvent) : Bool :=
  completesChange done &&
    stretch.any fun e ↦ decide (e.tid = done.tid) && changesCredential u e

/-- The change retires links of this kind. -/
def retires (cx : Context) (done : AppEvent) (purpose : TokenPurpose) : Bool :=
  (linkOf cx done.request).any fun link ↦ decide (link.1 = purpose)

/-- A link is not redeemed after a change that does not retire its kind, and no change of the
account succeeds between its redemption and its effect. -/
def linksInOrder (cx : Context) (u : Uuid) : AppEvent → List AppEvent → Bool
  | .ran i k q before, earlier =>
      match linkOf cx k with
      | none => true
      | some (purpose, hash) =>
          let since := sinceIssued hash earlier
          if claimsLink (.ran i k q before) then
            !((before.db.authTokens.get? hash).any fun t ↦
                decide (t.userId = u) && t.isRedeemable purpose before.now) ||
              since.all fun done ↦ !completedIn u since done || retires cx done purpose
          else if changesCredential u (.ran i k q before) then
            (earlier.takeWhile fun e ↦ !(claimsLink e && decide (e.tid = i))).all
              fun done ↦ !completedIn u since done
          else true
  | .answered .., _ => true

section

variable {cx : Context} {s : Server} {c : AppConfig} {u : Uuid}

theorem credentialOf_of_changesCredential {e : AppEvent} (h : changesCredential u e = true) :
    Event.credentialOf e = some u := by
  unfold changesCredential at h
  split at h
  next =>
    simp only [Bool.and_eq_true, decide_eq_true_eq] at h
    simp [Event.credentialOf, Statement.credentialOf, h.1]
  next =>
    simp only [Bool.and_eq_true, decide_eq_true_eq] at h
    simp [Event.credentialOf, Statement.credentialOf, h.1.1]
  next => cases h

theorem not_claimsLink_of_credentialOf {e : AppEvent} (h : Event.credentialOf e = some u) :
    claimsLink e = false := by
  unfold claimsLink
  split
  next => cases h
  next => rfl

/-- After a change that retires its kind an old link is not there to be redeemed. -/
theorem Reached.retired (hc : Reached cx s c) {j : ℕ} {k : Request} {response : Response}
    {b : Server} {purpose : TokenPurpose} {hash hash' : String} {mid older rest : List AppEvent}
    {change : AppEvent}
    (hhist : c.world.history = mid ++ .answered j k (.ok response) b :: (older ++ rest))
    (hlink : linkOf cx k = some (purpose, hash')) (hmem : change ∈ older) (htid : change.tid = j)
    (hchange : Event.credentialOf change = some u)
    (hmid : ∀ e ∈ mid, issuesLink hash e = false)
    (holder : ∀ e ∈ older, issuesLink hash e = false) :
    ¬linkIs hash (AuthToken.isUnused u purpose) c.world.store := by
  have hstep : LinkSteps cx (.answered j k (.ok response) b) (older ++ rest) :=
    Along.of_append (hhist ▸ hc.along fun k _ ↦ handles_linkSteps k)
  obtain ⟨since, v, bi, before, hown, hsince, hbefore⟩ := hstep purpose hash' hlink
  obtain ⟨newer, earlier, hsplit, hnewer, hearlier⟩ := exists_of_ownEvents hown
  have hnot : change ∉ newer := by
    intro hin
    have hnone := hsince change (hnewer ▸ mem_ownEvents.mpr ⟨hin, htid⟩)
    simp [hnone] at hchange
  -- the retirement lies between the change and the answer
  obtain ⟨between, rfl, rfl⟩ : ∃ between, older = newer ++
      .ran j k (.sql (.authTokens (.invalidateUnused v purpose))) bi :: between ∧
        earlier = between ++ rest := by
    rcases List.append_eq_append_iff.mp hsplit with ⟨x, rfl, -⟩ | ⟨x, rfl, hx⟩
    · exact absurd (List.mem_append_left x hmem) hnot
    · cases x with
      | nil => exact absurd (by simpa using hmem) hnot
      | cons y between =>
          obtain ⟨rfl, rfl⟩ := List.cons.inj hx
          exact ⟨between, rfl, rfl⟩
  obtain rfl : u = v := by
    refine hbefore change ?_ u hchange
    rw [← hearlier, mem_ownEvents]
    refine ⟨List.mem_append_left _ ?_, htid⟩
    rcases List.mem_append.mp hmem with hin | hin
    · exact absurd hin hnot
    · apply (List.mem_cons.mp hin).resolve_left
      rintro rfl
      cases hchange
  have hhist₂ : c.world.history = (mid ++ .answered j k (.ok response) b :: newer) ++
      .ran j k (.sql (.authTokens (.invalidateUnused u purpose))) bi :: (between ++ rest) := by
    simp [hhist]
  refine hc.not_live_of_ended (linkIs hash (AuthToken.isUnused u purpose)) (fun _ _ ↦ Iff.rfl)
    hhist₂ (fun x hx hrise ↦ ?_) ends_invalidateUnused
  cases x with
  | answered => exact hrise
  | ran i k q b' =>
      have hissues := issuesLink_of_rises (i := i) (k := k) hrise
      have hfree : issuesLink hash (.ran i k q b') = false := by
        rcases List.mem_append.mp hx with hx | hx
        · exact hmid _ hx
        · exact holder _
            (List.mem_append_left _ ((List.mem_cons.mp hx).resolve_left (by rintro ⟨⟩)))
      simp [hissues] at hfree

theorem answered_of_completesChange {done : AppEvent} (h : completesChange done = true) :
    ∃ i k response b, done = .answered i k (.ok response) b := by
  unfold completesChange at h
  split at h
  · exact ⟨_, _, _, _, rfl⟩
  · exact ⟨_, _, _, _, rfl⟩
  · exact ⟨_, _, _, _, rfl⟩
  · cases h

/-- What happened since the link was issued is the end of the history, and issues it nowhere. -/
theorem exists_of_sinceIssued {hash : String} {history since : List AppEvent}
    (h : sinceIssued hash history = since) :
    ∃ rest, history = since ++ rest ∧ ∀ e ∈ since, issuesLink hash e = false := by
  unfold sinceIssued at h
  subst h
  exact ⟨_, (List.takeWhile_append_dropWhile ..).symm,
    fun e he ↦ by simpa using List.mem_takeWhile_imp he⟩

/-- What happened since the link was issued and before its redemption. -/
theorem sinceIssued_of_redeemed {hash : String} {since earlier newer older : List AppEvent}
    {claim done : AppEvent} (hclaim : issuesLink hash claim = false)
    (h : sinceIssued hash (since ++ claim :: earlier) = newer ++ done :: older)
    (hdone : done ∉ since) (hne : done ≠ claim) :
    ∃ mid, sinceIssued hash earlier = mid ++ done :: older := by
  unfold sinceIssued at h ⊢
  by_cases hall : ∀ e ∈ since, (!issuesLink hash e) = true
  · rw [List.takeWhile_append_of_pos hall, List.takeWhile_cons_of_pos (by simp [hclaim])] at h
    rcases List.append_eq_append_iff.mp h with ⟨x, rfl, hx⟩ | ⟨x, rfl, hx⟩
    · cases x with
      | nil => exact absurd (List.cons.inj hx).1.symm hne
      | cons y mid => exact ⟨mid, (List.cons.inj hx).2⟩
    · cases x with
      | nil => exact absurd (List.cons.inj hx).1 hne
      | cons y mid =>
          obtain ⟨rfl, -⟩ := List.cons.inj hx
          exact absurd (by simp) hdone
  · exfalso
    have hin : done ∈ (since ++ claim :: earlier).takeWhile fun e ↦ !issuesLink hash e := by
      simp [h]
    rw [List.takeWhile_append, if_neg] at hin
    · exact hdone ((List.takeWhile_prefix _).subset hin)
    · intro hlen
      exact hall (List.takeWhile_eq_self_iff.mp ((List.takeWhile_prefix _).eq_of_length hlen))

theorem old_links_dead (hc : Reached cx s c)
    (horder : Along (fun e earlier ↦ linksInOrder cx u e earlier = true) c.world.history) :
    OldLinksDead cx u c.world := by
  intro later i k q b earlier purpose hash hhist hlink hchanges newer done older change hsince hdone
    hmem htid
  by_contra hchange
  rw [Bool.not_eq_false] at hchange
  have hstep : LinkSteps cx (.ran i k q b) earlier :=
    Along.of_append (hhist ▸ hc.along fun k _ ↦ handles_linkSteps k)
  have hcredential : q.credentialOf = some u := credentialOf_of_changesCredential hchanges
  obtain ⟨own, bc, t, hown, hclaims, hget, hvalid, huser⟩ := hstep purpose hash u hlink hcredential
  obtain ⟨since, before, rfl, hnewer, -⟩ := exists_of_ownEvents hown
  have hcompleted : ∀ stretch, change ∈ stretch → completedIn u stretch done = true := by
    intro stretch hin
    simp only [completedIn, hdone, Bool.true_and, List.any_eq_true]
    exact ⟨change, hin, by simp [htid, hchange]⟩
  have hnot : done ∉ since := by
    intro hin
    have hwrite : linksInOrder cx u (.ran i k q b)
      (since ++ .ran i k (.sql (.authTokens (.claim purpose hash))) bc :: before) = true :=
      Along.of_append (hhist ▸ horder)
    have hopen : ∀ e ∈ since, (!(claimsLink e && decide (e.tid = i))) = true := by
      intro e he
      by_cases htid : e.tid = i
      · simp [hclaims e (hnewer ▸ mem_ownEvents.mpr ⟨he, htid⟩)]
      · simp [htid]
    have hnoclaim : claimsLink (.ran i k q b) = false := not_claimsLink_of_credentialOf hcredential
    simp only [linksInOrder, hlink, hnoclaim, hchanges, Bool.false_eq_true, ↓reduceIte] at hwrite
    rw [List.takeWhile_append_of_pos hopen, List.takeWhile_cons_of_neg (by simp [claimsLink]),
      List.append_nil, List.all_eq_true] at hwrite
    simpa [hcompleted _ (hsince ▸ List.mem_append_right _ (List.mem_cons_of_mem _ hmem))] using
      hwrite done hin
  obtain ⟨mid, hmid⟩ := sinceIssued_of_redeemed rfl hsince hnot (by
    rintro rfl
    cases hdone)
  have hredeem : linksInOrder cx u (.ran i k (.sql (.authTokens (.claim purpose hash))) bc)
      before = true := by
    have hhist₂ : c.world.history = (later ++ .ran i k q b :: since) ++
        .ran i k (.sql (.authTokens (.claim purpose hash))) bc :: before := by simp [hhist]
    exact Along.of_append (hhist₂ ▸ horder)
  have hretires : retires cx done purpose = true := by
    have hfound : ((bc.db.authTokens.get? hash).any fun t ↦
        decide (t.userId = u) && t.isRedeemable purpose bc.now) = true := by
      simp [hget, huser, hvalid]
    simp only [linksInOrder, hlink, claimsLink, hfound, Bool.not_true, Bool.false_or, ↓reduceIte,
      List.all_eq_true, hmid] at hredeem
    have hdone' := hredeem done (by simp)
    rwa [hcompleted _ (List.mem_append_right _ (List.mem_cons_of_mem _ hmem)), Bool.not_true,
      Bool.false_or] at hdone'
  obtain ⟨⟨purpose', hash'⟩, hlink', hpurpose⟩ := (Option.any_eq_true ..).mp hretires
  obtain rfl : purpose' = purpose := of_decide_eq_true hpurpose
  obtain ⟨j, kd, response, bd, rfl⟩ := answered_of_completesChange hdone
  have hhist₁ : c.world.history = (later ++ .ran i k q b :: since) ++
      .ran i k (.sql (.authTokens (.claim purpose' hash))) bc :: before := by simp [hhist]
  obtain ⟨c₁, hc₁, hworld₁⟩ := hc.past hhist₁
  obtain ⟨rest, hbefore, hfree⟩ := exists_of_sinceIssued hmid
  rw [List.append_assoc, List.cons_append] at hbefore
  refine Reached.retired hc₁ (by rw [hworld₁]; exact hbefore) hlink' hmem htid
    (credentialOf_of_changesCredential hchange) (fun e he ↦ hfree e (List.mem_append_left _ he))
    (fun e he ↦ hfree e (List.mem_append_right _ (List.mem_cons_of_mem _ he))) ?_
  rw [hworld₁]
  simp only [AuthToken.isRedeemable, Bool.and_eq_true] at hvalid
  exact ⟨t, hget, by simp [AuthToken.isUnused, huser, hvalid.1.1, hvalid.1.2]⟩

end

/-! ## A reset link that outlives a password change -/

def Request.usesLinks : Request → Bool
  | .forgotPassword _ | .resetPassword .. | .changePassword .. => true
  | .requestEmailChange .. | .confirmEmailChange _ => true
  | _ => false

namespace LinkSample

open Sample

def start : Server := server (.single (account 1 "ada@example.com" .user))

/-- The link in Ada's inbox. -/
def link : String := Context.sample.randomToken 0

def forgotten : List (Action Request ℕ) := alone 0 (.forgotPassword "ada@example.com") 8

def changed : List (Action Request ℕ) :=
  alone 1 (.changePassword (bearer 1 .user) "correct-horse" "battery-staple") 7

/-- The link is followed up to the new password. -/
def followed : List (Action Request ℕ) :=
  .start (.resetPassword link "tr0ub4dor") :: List.replicate 5 (.run 2)

/-- The link is used twice. -/
def usedTwice : List (Action Request ℕ) :=
  alone 1 (.resetPassword link "battery-staple") 8 ++ alone 2 (.resetPassword link "tr0ub4dor") 1

/-- The last step changes a credential with a link from before a completed change. -/
def redeemsOld (c : AppConfig) : Bool :=
  match c.world.history with
  | .ran i k q b :: earlier =>
      changesCredential 1 (.ran i k q b) && (linkOf .sample k).any fun link ↦
        match (sinceIssued link.2 earlier).dropWhile fun e ↦ !completesChange e with
        | done :: older => completesChange done && older.any fun change ↦
            decide (change.tid = done.tid) && changesCredential 1 change
        | [] => false
  | _ => false

end LinkSample

theorem old_links_dead_after_reset :
    ∃ c, Reached .sample LinkSample.start c ∧
      (∃ e ∈ c.world.history, completesChange e = true) ∧ OldLinksDead .sample 1 c.world := by
  let test : AppConfig → Bool := fun c ↦ c.world.history.any completesChange &&
    decide (Along (fun e earlier ↦ linksInOrder .sample 1 e earlier = true) c.world.history)
  obtain ⟨c, hc, htest⟩ : ∃ c, Reached .sample LinkSample.start c ∧ test c = true :=
    Reachable.of_schedule (LinkSample.forgotten ++ LinkSample.usedTwice) test
      (by decide) (by decide)
  simp only [test, Bool.and_eq_true, List.any_eq_true, decide_eq_true_eq] at htest
  exact ⟨c, hc, htest.1, old_links_dead hc htest.2⟩

/-- A reset link still sets the password after the password was changed. -/
theorem reset_link_outlives_change :
    ¬∀ (cx : Context) (s : Server) (c : AppConfig) (u : Uuid),
      Reachable (machine cx) (handle cx) (fun k ↦ k.usesLinks = true) s c →
        OldLinksDead cx u c.world := by
  intro h
  obtain ⟨c, hc, htest⟩ : ∃ c, Reachable (machine .sample) (handle .sample)
      (fun k ↦ k.usesLinks = true) LinkSample.start c ∧ LinkSample.redeemsOld c = true :=
    Reachable.of_schedule (LinkSample.forgotten ++ LinkSample.changed ++ LinkSample.followed)
      LinkSample.redeemsOld (by decide) (by decide)
  unfold LinkSample.redeemsOld at htest
  split at htest
  next i k q b earlier hhist =>
    obtain ⟨hchanges, hlink⟩ := (Bool.and_eq_true_iff ..).mp htest
    obtain ⟨⟨purpose, hash⟩, hlink, hdrop⟩ := (Option.any_eq_true ..).mp hlink
    split at hdrop
    next done older heq =>
      simp only [Bool.and_eq_true, decide_eq_true_eq, List.any_eq_true] at hdrop
      obtain ⟨hdone, change, hmem, htid, hchange⟩ := hdrop
      have hsplit : sinceIssued hash earlier =
          ((sinceIssued hash earlier).takeWhile fun e ↦ !completesChange e) ++ done :: older := by
        rw [← heq, List.takeWhile_append_dropWhile]
      have hdead :=
        h .sample _ c 1 hc [] i k q b earlier purpose hash hhist hlink hchanges _ done older
        change hsplit hdone hmem htid
      simp [hchange] at hdead
    next => cases hdrop
  next => cases htest

end ApiStarter
