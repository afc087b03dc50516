import ApiStarter.Calls
import ApiStarter.Interleave.Relabel

/-!
# The browser that started the flow

A sign-in or linking flow starts in one browser and comes back from the provider
to a callback address, which any browser can be made to open.  The state in that
address is looked up by its hash, and nothing is known of the browser it was
given to.  Flows are completed by the browser that started them as long as no
other browser presents their state while it is open.
-/

namespace ApiStarter

open Interleave Interleave.Prog Relational

/-- A request and the browser that sends it, which no handler looks at. -/
structure Visit where
  browser : ℕ
  request : Request

def handleVisit (cx : Context) (v : Visit) : Req Response := handle cx v.request

abbrev VisitEvent := Event Statement Server Visit AppError Response
abbrev VisitConfig := Config Statement.Res Server Visit AppError Response

/-- Configurations that any browsers with any requests in flight reach from `s`. -/
abbrev Visited (cx : Context) (s : Server) (c : VisitConfig) : Prop :=
  Reachable (machine cx) (handleVisit cx) (fun _ ↦ True) s c

/-- The outcomes that complete a flow. -/
def CallbackOutcome.completes : CallbackOutcome → Bool
  | .loggedIn .. | .linked .. => true
  | .failed _ => false

/-- Where a completed flow goes on to. -/
def CallbackOutcome.redirect? : CallbackOutcome → Option String
  | .loggedIn _ redirect | .linked _ redirect => some redirect
  | .failed _ => none

/-- A start request of the browser stores the state with this hash. -/
def startedBy (browser : ℕ) (hash : String) : VisitEvent → Bool
  | .ran _ ⟨b, .oauthLogin ..⟩ (.sql (.oauthStates (.insert row))) _
  | .ran _ ⟨b, .oauthLink ..⟩ (.sql (.oauthStates (.insert row))) _ =>
      decide (b = browser) && decide (row.stateHash = hash)
  | _ => false

/-- A flow is completed in the browser whose start request produced its state. -/
def BoundToBrowser (cx : Context) (h : List VisitEvent) : Prop :=
  ∀ later i browser provider query answer outcome b earlier,
    h = later ++ .answered i ⟨browser, .oauthCallback provider query answer⟩
      (.ok (.callback outcome)) b :: earlier → outcome.completes = true →
        ∃ raw, query.state = some raw ∧
          ∃ x ∈ earlier, startedBy browser (cx.sha256 raw) x = true

/-- A callback that finds its state open, started for its provider, with a code the provider
accepts, comes from a browser that started a flow with this state. -/
def presentsOwnState : VisitEvent → List VisitEvent → Bool
  | .ran _ ⟨browser, .oauthCallback provider query answer⟩ (.sql (.oauthStates (.claim hash))) b,
      earlier =>
      ((b.db.oauthStates.get? hash).filter fun row ↦ decide (b.now < row.expiresAt)).all fun row ↦
        !decide (row.provider = provider) || query.error.isSome || query.code.isNone ||
          answer.isNone || earlier.any (startedBy browser hash)
  | _, _ => true

/-! ## One request -/

/-- The callback claimed an open state of its provider, and the provider told who it is. -/
def ClaimedOpen (cx : Context) (i : ℕ) (provider : Provider) (query : CallbackQuery)
    (answer : Option ProviderProfile) (own : List AppEvent) : Prop :=
  query.error = none ∧ query.code.isSome = true ∧ answer.isSome = true ∧
    ∃ raw b row, query.state = some raw ∧
      .ran i (.oauthCallback provider query answer)
        (.sql (.oauthStates (.claim (cx.sha256 raw)))) b ∈ own ∧
      b.db.oauthStates.get? (cx.sha256 raw) = some row ∧ b.now < row.expiresAt ∧
        row.provider = provider

/-- A callback completes a flow only after that. -/
def CompletesClaimed (cx : Context) : AppEvent → List AppEvent → Prop
  | .answered i (.oauthCallback provider query answer) (.ok (.callback outcome)) _, own =>
      outcome.completes = true → ClaimedOpen cx i provider query answer own
  | _, _ => True

theorem returns_resolve (cx : Context) (provider : Provider) (profile : ProviderProfile)
    (linkingUser : Option Uuid) (redirect : String) :
    (OAuthService.resolve cx provider profile linkingUser redirect).Returns fun outcome ↦
      outcome.redirect? = some redirect := by
  have grants (u : Uuid) : (OAuthService.grantFor cx u redirect).Returns fun outcome ↦
      outcome.redirect? = some redirect := by
    refine returns_bind fun _ ↦ returns_bind fun _ ↦ returns_bind fun _ ↦ returns_bind fun _ ↦ ?_
    exact returns_bind fun _ ↦ returns_bind fun _ ↦ returns_bind fun _ ↦ rfl
  refine returns_bind fun found ↦ ?_
  cases found with
  | some identity =>
      cases linkingUser with
      | some u =>
          dsimp only
          split
          · rfl
          · trivial
      | none => exact grants identity.userId
  | none =>
      cases linkingUser with
      | some u => exact returns_bind fun _ ↦ returns_bind fun _ ↦ returns_bind fun _ ↦ rfl
      | none =>
          refine returns_bind fun _ ↦ returns_bind fun user ↦ returns_bind fun _ ↦ ?_
          exact grants user.id

/-- A callback fails with a reason or claims an open state of its provider, is told by the
provider who it is, and goes on to the path stored with the state. -/
theorem traces_oauthCallback_of_done {cx : Context} {provider : Provider} {query : CallbackQuery}
    {answer : Option ProviderProfile} {P : AppEvent → List AppEvent → Prop}
    (hran : ∀ i q s own, P (.ran i (.oauthCallback provider query answer) q s) own)
    (hfailed : ∀ i reason s own, P (.answered i (.oauthCallback provider query answer)
      (.ok (.callback (.failed reason))) s) own)
    (hdone : ∀ i raw b row own outcome s, query.error = none → query.code.isSome = true →
      answer.isSome = true → query.state = some raw →
        .ran i (.oauthCallback provider query answer)
          (.sql (.oauthStates (.claim (cx.sha256 raw)))) b ∈ own →
        b.db.oauthStates.get? (cx.sha256 raw) = some row → b.now < row.expiresAt →
        row.provider = provider → outcome.redirect? = some row.redirectPath →
          P (.answered i (.oauthCallback provider query answer) (.ok (.callback outcome)) s) own) :
    Traces (machine cx) P (.oauthCallback provider query answer) (handle cx) := by
  intro i
  have hE : ∀ (reason : String) (own : List AppEvent), Delivers P i
      (.oauthCallback provider query answer) (.ok (.callback (.failed reason))) own :=
    fun reason own s ↦ hfailed i reason s own
  refine traced_bind.mpr (traced_bind.mpr (traced_bindBoth.mpr ?_))
  refine traced_bind.mpr ((traced_okOr ..).mpr ⟨fun raw hraw ↦ ?_, fun _ ↦ hE _ _⟩)
  refine traced_bind.mpr (traced_mapErr.mpr (traced_sql (fun _ ↦ hran ..)
    (fun s claimed hclaimed ↦ ?_) (fun _ _ ↦ hE _ _) (hE _ _)))
  refine traced_bind.mpr ((traced_okOr ..).mpr ⟨fun row hrow ↦ ?_, fun _ ↦ hE _ _⟩)
  subst hrow
  obtain ⟨hget, hopen, -⟩ := OAuthStateSql.claim_eq_some hclaimed
  refine traced_bind.mpr ((traced_ensure ..).mpr ⟨fun hprovider ↦ ?_, fun _ ↦ hE _ _⟩)
  refine traced_bind.mpr ((traced_ensure ..).mpr ⟨fun herror ↦ ?_, fun _ ↦ hE _ _⟩)
  refine traced_bind.mpr ((traced_okOr ..).mpr ⟨fun code hcode ↦ ?_, fun _ ↦ hE _ _⟩)
  refine traced_bind.mpr ((traced_okOr ..).mpr ⟨fun accessToken _ ↦ ?_, fun _ ↦ hE _ _⟩)
  refine traced_bind.mpr ((traced_okOr ..).mpr ⟨fun profile hprofile ↦ ?_, fun _ ↦ hE _ _⟩)
  have hreturns := returns_resolve cx provider profile row.userId row.redirectPath
  refine traced_of_quiet (only_true _) hreturns (fun _ _ _ _ ↦ hran ..)
    (fun outcome own' hpath hown s' ↦ ?_) fun reason own' _ ↦ hE reason own'
  exact hdone i raw s row own' outcome s' (by simpa using herror) (by rw [hcode]; rfl)
    (Option.isSome_of_eq_some hprofile) hraw (hown List.mem_cons_self) hget hopen hprovider hpath

theorem traces_oauthCallback_claimed (cx : Context) (provider : Provider) (query : CallbackQuery)
    (answer : Option ProviderProfile) :
    Traces (machine cx) (CompletesClaimed cx) (.oauthCallback provider query answer)
      (handle cx) := by
  apply traces_oauthCallback_of_done
  · exact fun _ _ _ _ ↦ trivial
  · intro i reason s own hcompletes
    cases hcompletes
  · intro i raw b row own outcome s herror hcode hanswer hraw hclaim hget hopen hprovider _ _
    exact ⟨herror, hcode, hanswer, raw, b, row, hraw, hclaim, hget, hopen, hprovider⟩

theorem traces_completesClaimed (cx : Context) (k : Request) :
    Traces (machine cx) (CompletesClaimed cx) k (handle cx) := by
  cases k with
  | oauthCallback provider query answer =>
      exact traces_oauthCallback_claimed cx provider query answer
  | _ =>
      exact .of_only (S := fun _ ↦ True) (only_true _) (fun _ _ _ _ _ ↦ trivial)
        fun _ a _ _ ↦ by cases a <;> trivial

/-! ## All runs -/

section Runs

variable {cx : Context} {s : Server} {c : VisitConfig}

theorem Visited.reached (hc : Visited cx s c) : Reached cx s (c.relabel fun _ v ↦ v.request) :=
  hc.relabel (fun _ _ ↦ rfl) fun _ _ _ ↦ trivial

/-- Whichever browsers send them, the same requests can run in the same way. -/
theorem Visited.from_browsers (hc : Visited cx s c) (browser : ℕ → ℕ) :
    Visited cx s (c.relabel fun i v ↦ ⟨browser i, v.request⟩) :=
  hc.relabel (fun _ _ ↦ rfl) fun _ _ _ ↦ trivial

theorem flows_bound_to_browser (hc : Visited cx s c)
    (hown : Along (fun e earlier ↦ presentsOwnState e earlier = true) c.world.history) :
    BoundToBrowser cx c.world.history := by
  intro later i browser provider query answer outcome b earlier hhist hcompletes
  have hall := hc.reached.traces fun k _ ↦ traces_completesClaimed cx k
  rw [Config.relabel_history, hhist, List.map_append, List.map_cons] at hall
  obtain ⟨herror, hcode, hanswer, raw, b₀, row, hstate, hclaim, hget, hopen, hprovider⟩ :
      ClaimedOpen cx i provider query answer (ownEvents i _) := Along.of_append hall hcompletes
  obtain ⟨e, he, hlabel⟩ := List.mem_map.mp (mem_ownEvents.mp hclaim).1
  have he' : e ∈ c.world.history := by simp [hhist, he]
  cases e with
  | answered => cases hlabel
  | ran j v q b₁ =>
      obtain ⟨rfl, -, rfl, rfl⟩ := Event.ran.inj hlabel
      have hanswered : Event.answered j ⟨browser, .oauthCallback provider query answer⟩
          (.ok (.callback outcome)) b ∈ c.world.history := by simp [hhist]
      obtain rfl : v = ⟨browser, .oauthCallback provider query answer⟩ :=
        hc.request_eq he' hanswered rfl
      obtain ⟨newer, older, rfl⟩ := List.append_of_mem he
      have hpresents : presentsOwnState (.ran j ⟨browser, .oauthCallback provider query answer⟩
          (.sql (.oauthStates (.claim (cx.sha256 raw)))) b₁) older = true := by
        rw [hhist, ← List.cons_append, ← List.append_assoc] at hown
        exact Along.of_append (P := fun e earlier ↦ presentsOwnState e earlier = true) hown
      have hfound : (b₁.db.oauthStates.get? (cx.sha256 raw)).filter
          (fun row ↦ decide (b₁.now < row.expiresAt)) = some row :=
        Option.filter_eq_some_iff.mpr ⟨hget, decide_eq_true hopen⟩
      obtain ⟨code, hcode⟩ := Option.isSome_iff_exists.mp hcode
      obtain ⟨profile, hprofile⟩ := Option.isSome_iff_exists.mp hanswer
      simp only [presentsOwnState, hfound, Option.all_some, hprovider, herror, hcode, hprofile,
        decide_true, Bool.not_true, Option.isSome_none, Option.isNone_some, Bool.false_or,
        List.any_eq_true] at hpresents
      obtain ⟨x, hx, hstarted⟩ := hpresents
      exact ⟨raw, hstate, x, by simp [hx], hstarted⟩

end Runs

/-! ## An address opened elsewhere -/

namespace BrowserSample

/-- The first token drawn. -/
def token : String := "token0-with-some-more-characters-to-it"

/-- Mallory starts a sign-in in browser 2 and signs in at the provider as herself. -/
def login : Visit := ⟨2, .oauthLogin .google none⟩

/-- The provider's redirect, opened in some browser. -/
def callback (browser : ℕ) : Visit :=
  ⟨browser, .oauthCallback .google
    ⟨some "code", some token, none⟩
    (some ⟨"sub-2", some "mallory@example.com", true, none⟩)⟩

/-- Both requests, each from start to answer. -/
def schedule (browser : ℕ) : List (Action Visit ℕ) :=
  .start login :: List.replicate 6 (.run 0) ++ .answer 0 ::
    .start (callback browser) :: List.replicate 12 (.run 1) ++ [.answer 1]

def completedIn (browser : ℕ) : VisitEvent → Bool
  | .answered _ ⟨b, .oauthCallback _ query _⟩ (.ok (.callback outcome)) _ =>
      decide (b = browser) && decide (query.state = some token) && outcome.completes
  | _ => false

end BrowserSample

theorem flow_bound_to_own_browser :
    ∃ c, Visited .sample (Sample.server .empty) c ∧
      c.world.history.any (BrowserSample.completedIn 2) = true ∧
        BoundToBrowser .sample c.world.history := by
  let test : VisitConfig → Bool := fun c ↦ c.world.history.any (BrowserSample.completedIn 2) &&
    decide (Along (fun e earlier ↦ presentsOwnState e earlier = true) c.world.history)
  obtain ⟨c, hc, htest⟩ : ∃ c, Visited .sample (Sample.server .empty) c ∧ test c = true :=
    Reachable.of_schedule (BrowserSample.schedule 2) test (by decide) (by decide)
  simp only [test, Bool.and_eq_true, decide_eq_true_eq] at htest
  exact ⟨c, hc, htest.1, flows_bound_to_browser hc htest.2⟩

/-- Browser 1 opens the address that browser 2 was sent to, and is signed in as Mallory. -/
theorem flow_completed_elsewhere :
    ¬∀ (cx : Context) (s : Server) (c : VisitConfig), Visited cx s c →
      BoundToBrowser cx c.world.history := by
  intro h
  let test : VisitConfig → Bool := fun c ↦ c.world.history.any (BrowserSample.completedIn 1) &&
    c.world.history.all fun e ↦ !startedBy 1 (Context.sample.sha256 BrowserSample.token) e
  obtain ⟨c, hc, htest⟩ : ∃ c, Visited .sample (Sample.server .empty) c ∧ test c = true :=
    Reachable.of_schedule (BrowserSample.schedule 1) test (by decide) (by decide)
  simp only [test, Bool.and_eq_true, List.any_eq_true, List.all_eq_true] at htest
  obtain ⟨⟨e, he, hdone⟩, hnone⟩ := htest
  obtain ⟨later, earlier, hhist⟩ := List.append_of_mem he
  unfold BrowserSample.completedIn at hdone
  split at hdone
  next i browser provider query answer outcome b =>
    simp only [Bool.and_eq_true, decide_eq_true_eq] at hdone
    obtain ⟨⟨rfl, hstate⟩, hcompletes⟩ := hdone
    obtain ⟨raw, hraw, x, hx, hstarted⟩ := h .sample _ c hc _ _ _ _ _ _ _ _ _ hhist hcompletes
    obtain rfl : BrowserSample.token = raw := Option.some.inj (hstate.symm.trans hraw)
    simpa [hstarted] using hnone x (by simp [hhist, hx])
  next => cases hdone

end ApiStarter
