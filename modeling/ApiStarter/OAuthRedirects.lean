import ApiStarter.Browsers
import ApiStarter.Identities
import ApiStarter.Web.Url

/-!
# Coming back from the provider

A flow is begun with a path to come back to, which is filtered, stored with the
state and sent to the frontend when the flow completes.  Whatever is asked for,
the path that arrives is the one that was stored, and a browser that follows it
stays on the frontend.
-/

namespace ApiStarter

open Interleave Interleave.Prog Relational Web

/-! ## The address the browser is sent to -/

/-- What a header value may consist of. -/
def isHeaderByte (b : UInt8) : Bool := 32 ≤ b && b != 127 || b == 9

/-- The `Location` of the redirect, or `none` for a server error when it is no header value. -/
def redirectTo (location : String) : Option String :=
  if (utf8 location.toList).all isHeaderByte then some location else none

def CallbackOutcome.query : CallbackOutcome → List (String × String)
  | .loggedIn code redirect => [("code", code), ("redirect", redirect)]
  | .linked provider redirect => [("linked", provider.asStr), ("redirect", redirect)]
  | .failed reason => [("error", reason)]

/-- Every outcome, success or failure, lands on one frontend route. -/
def frontendRedirect (frontendUrl : String) (outcome : CallbackOutcome) : Option String :=
  redirectTo (frontendUrl ++ "/oauth/callback?" ++ String.ofList (formSerialize outcome.query))

/-- The address is the frontend's callback page, told to go on to the path. -/
def ReturnsTo (frontendUrl path location : String) : Prop :=
  ∃ form, location = frontendUrl ++ "/oauth/callback?" ++ String.ofList form ∧
    ∀ decoder, formValue decoder form "redirect" = some path

theorem formValue_redirect {outcome : CallbackOutcome} {path : String}
    (h : outcome.redirect? = some path) (decoder : Utf8Decoder) :
    formValue decoder (formSerialize outcome.query) "redirect" = some path := by
  rw [formValue, formParse_formSerialize]
  cases outcome with
  | loggedIn code redirect => exact h
  | linked provider redirect => exact h
  | failed reason => cases h

theorem returnsTo_of_redirect {frontendUrl path location : String} {outcome : CallbackOutcome}
    (hpath : outcome.redirect? = some path)
    (hlocation : frontendRedirect frontendUrl outcome = some location) :
    ReturnsTo frontendUrl path location := by
  unfold frontendRedirect redirectTo at hlocation
  split at hlocation
  · exact ⟨_, (Option.some.inj hlocation).symm, formValue_redirect hpath⟩
  · cases hlocation

theorem utf8_append (a b : List Char) : utf8 (a ++ b) = utf8 a ++ utf8 b := List.flatMap_append

theorem all_isHeaderByte_of_visible {text : List Char}
    (h : ∀ c ∈ text, 32 < c.toNat ∧ c.toNat < 127) : (utf8 text).all isHeaderByte = true := by
  apply List.all_eq_true.mpr
  intro b hb
  obtain ⟨c, hc, hbyte⟩ := List.mem_flatMap.mp hb
  obtain ⟨hlow, hhigh⟩ := h c hc
  have hencode : String.utf8EncodeChar c = [UInt8.ofNat c.toNat] := by
    rw [← utf8EncodeChar_ofNat (by omega), Char.ofNat_toNat]
  rw [hencode, List.mem_singleton] at hbyte
  have hnat : b.toNat = c.toNat := by
    rw [hbyte]
    exact Nat.mod_eq_of_lt (by omega)
  simp only [isHeaderByte, Bool.or_eq_true, Bool.and_eq_true, decide_eq_true_eq, bne_iff_ne,
    UInt8.le_iff_toNat_le, ne_eq, ← UInt8.toNat_inj, UInt8.reduceToNat]
  omega

/-- The browser is sent there, unless the configured address cannot stand in a header. -/
theorem exists_frontendRedirect {frontendUrl : String} (outcome : CallbackOutcome)
    (h : (utf8 frontendUrl.toList).all isHeaderByte = true) :
    ∃ location, frontendRedirect frontendUrl outcome = some location := by
  have hroute : (utf8 "/oauth/callback?".toList).all isHeaderByte = true := by decide
  have hform : (utf8 (formSerialize outcome.query)).all isHeaderByte = true :=
    all_isHeaderByte_of_visible fun c hc ↦ visible_of_mem_formSerialize hc
  refine ⟨_, if_pos ?_⟩
  rw [String.toList_append, String.toList_append, utf8_append, utf8_append, List.all_append,
    List.all_append, h, hroute, String.toList_ofList, hform]
  rfl

/-! ## The path that was asked for -/

theorem rooted_safeRedirectPath (input : Option String) :
    Url.Rooted (safeRedirectPath input).toList ∧
      ∀ c ∈ (safeRedirectPath input).toList, isTabOrNewline c = false := by
  have hroot : Url.Rooted "/".toList ∧ ∀ c ∈ "/".toList, isTabOrNewline c = false :=
    ⟨⟨[], rfl, by simp⟩, by simp [isTabOrNewline]⟩
  cases input with
  | none => exact hroot
  | some path =>
      unfold safeRedirectPath
      dsimp only
      split
      next h =>
        obtain ⟨hfirst, hsecond, hback, hcontrol, -⟩ := h
        constructor
        · cases hpath : path.toList with
          | nil => simp [hpath] at hfirst
          | cons c rest =>
              obtain rfl : c = '/' := by simpa [hpath] using hfirst
              refine ⟨rest, rfl, fun d hd ↦ ⟨?_, ?_⟩⟩
              · rintro rfl
                cases rest with
                | nil => cases hd
                | cons d rest =>
                    obtain rfl : d = '/' := by simpa using hd
                    simp [hpath] at hsecond
              · rintro rfl
                apply hback
                rw [hpath]
                exact List.mem_cons_of_mem _ (List.mem_of_mem_head? hd)
        · intro c hc
          have hplain : safeRedirectPath.isControl c = false := by
            by_contra hne
            exact hcontrol (List.any_eq_true.mpr ⟨c, hc, by simpa using hne⟩)
          simp only [safeRedirectPath.isControl, Bool.or_eq_false_iff,
            decide_eq_false_iff_not] at hplain
          unfold isTabOrNewline
          simp only [Bool.or_eq_false_iff, beq_eq_false_iff_ne]
          refine ⟨⟨?_, ?_⟩, ?_⟩
          all_goals
            rintro rfl
            exact absurd hplain.1 (by decide)
      next => exact hroot

/-! ## All runs -/

/-- The request stores the state with this hash, to come back to the path. -/
inductive Begins (hash : String) : AppEvent → String → Prop
  | login {i : ℕ} {provider : Provider} {redirect : Option String} {row : OAuthState} {b : Server}
      (h : row.stateHash = hash) : Begins hash
        (.ran i (.oauthLogin provider redirect) (.sql (.oauthStates (.insert row))) b)
        (safeRedirectPath redirect)
  | link {i : ℕ} {caller : Presented} {provider : Provider} {row : OAuthState} {b : Server}
      (h : row.stateHash = hash) : Begins hash
        (.ran i (.oauthLink caller provider) (.sql (.oauthStates (.insert row))) b) "/settings"

/-- A state is stored with the path that its request asks for. -/
def StoresPath (k : Request) : Statement → Prop
  | .sql (.oauthStates (.insert row)) =>
      match k with
      | .oauthLogin _ redirect => row.redirectPath = safeRedirectPath redirect
      | .oauthLink .. => row.redirectPath = "/settings"
      | _ => False
  | _ => True

theorem storesPath_of_effect {k : Request} {q : Statement} (h : q.effect ≠ .insertState) :
    StoresPath k q := by
  unfold StoresPath
  split
  · exact absurd rfl h
  · trivial

theorem only_storesPath (cx : Context) (k : Request) : (handle cx k).Only (StoresPath k) := by
  cases k with
  | oauthLogin provider redirect =>
      refine .bind (only_start (fun q hq ↦ storesPath_of_effect ?_) fun row hrow ↦ hrow)
        fun _ ↦ trivial
      simp [hq]
  | oauthLink caller provider =>
      refine .bind (only_sessionUser (fun q hq ↦ storesPath_of_effect ?_) _ _) fun _ ↦ ?_
      · simp [hq]
      · refine .bind (only_start (fun q hq ↦ storesPath_of_effect ?_) fun row hrow ↦ hrow)
          fun _ ↦ trivial
        simp [hq]
  | _ =>
      refine handle_only _ fun q hq ↦ storesPath_of_effect ?_
      rintro heffect
      rw [heffect] at hq
      simp [Request.effects] at hq

/-- A completed flow goes on to the path stored with the state that its callback claimed. -/
def GoesOnToStored (cx : Context) : AppEvent → List AppEvent → Prop
  | .answered i (.oauthCallback provider query answer) (.ok (.callback outcome)) _, own =>
      ∀ path, outcome.redirect? = some path → ∃ raw b row, query.state = some raw ∧
        .ran i (.oauthCallback provider query answer)
          (.sql (.oauthStates (.claim (cx.sha256 raw)))) b ∈ own ∧
        b.db.oauthStates.get? (cx.sha256 raw) = some row ∧ row.redirectPath = path
  | _, _ => True

theorem traces_goesOnToStored (cx : Context) (k : Request) :
    Traces (machine cx) (GoesOnToStored cx) k (handle cx) := by
  cases k with
  | oauthCallback provider query answer =>
      apply traces_oauthCallback_of_done
      · exact fun _ _ _ _ ↦ trivial
      · intro i reason s own path hpath
        cases hpath
      · intro i raw b row own outcome s _ _ _ hraw hclaim hget _ _ hstored path hpath
        exact ⟨raw, b, row, hraw, hclaim, hget, Option.some.inj (hstored.symm.trans hpath)⟩
  | _ =>
      exact .of_only (S := fun _ ↦ True) (only_true _) (fun _ _ _ _ _ ↦ trivial)
        fun _ a _ _ ↦ by cases a <;> trivial

section Runs

variable {cx : Context} {s : Server} {c : AppConfig}

/-- A state that a callback finds has the path that its flow began with. -/
theorem Reached.path_of_state (hc : Reached cx s c) {hash : String}
    (hnew : s.db.oauthStates.get? hash = none)
    (hdistinct : cx.DistinctDraws (.state hash) c.world.store.draws) {e : AppEvent}
    (he : e ∈ c.world.history) {path : String} (hbegins : Begins hash e path)
    {later earlier : List AppEvent} {x : AppEvent}
    (hhist : c.world.history = later ++ x :: earlier) {row : OAuthState}
    (hget : x.store.db.oauthStates.get? hash = some row) : row.redirectPath = path := by
  obtain ⟨c', hc', hworld⟩ := hc.past hhist
  obtain ⟨mid, rise, before, hbefore, hrise, -⟩ :=
    hc'.rises_of_live (fun s : Server ↦ s.db.oauthStates.get? hash = some row) (fun _ _ ↦ Iff.rfl)
      (by simp [hnew]) (by rw [hworld]; exact hget)
  have hsplit : earlier = mid ++ rise :: before :=
    (congrArg World.history hworld).symm.trans hbefore
  cases rise with
  | answered => exact hrise.elim
  | ran i k q b =>
      obtain rfl := insert_of_state_rises hrise
      have hmem : .ran i k (.sql (.oauthStates (.insert row))) b ∈ c.world.history := by
        simp [hhist, hsplit]
      have hhash : row.stateHash = hash := Table.key_of_get? hget
      have hmints : e.Mints Statement.Mints (.state hash) := by
        cases hbegins with
        | login h => exact h
        | link h => exact h
      -- the flow's own statement is the only one that ever stored this state
      obtain rfl := (hc.minted_once hdistinct).eq hmem he hhash hmints
      have hstores := (hc.ran_only (fun k _ ↦ only_storesPath cx k) i k _ b hmem).2
      cases hbegins with
      | login h => exact hstores
      | link h => exact hstores

/-- A flow that completes sends the browser to the frontend, to go on to the path that the flow
began with, and following that path keeps it there. -/
theorem redirects_survive (hc : Reached cx s c) {later earlier : List AppEvent} {i : ℕ}
    {provider : Provider} {query : CallbackQuery} {answer : Option ProviderProfile}
    {outcome : CallbackOutcome} {b : Server}
    (hhist : c.world.history = later ++ .answered i (.oauthCallback provider query answer)
      (.ok (.callback outcome)) b :: earlier) (hcompletes : outcome.completes = true)
    {raw : String} (hstate : query.state = some raw) {e : AppEvent} (he : e ∈ c.world.history)
    {path : String} (hbegins : Begins (cx.sha256 raw) e path)
    (hnew : s.db.oauthStates.get? (cx.sha256 raw) = none)
    (hdistinct : cx.DistinctDraws (.state (cx.sha256 raw)) c.world.store.draws) :
    (∀ location, frontendRedirect cx.frontendUrl outcome = some location →
      ReturnsTo cx.frontendUrl path location) ∧
    ((utf8 cx.frontendUrl.toList).all isHeaderByte = true →
      ∃ location, frontendRedirect cx.frontendUrl outcome = some location) ∧
    ∀ (parseHost : HostParser) (o : Origin), o.Keeps parseHost path := by
  have hall := hc.traces fun k _ ↦ traces_goesOnToStored cx k
  rw [hhist] at hall
  have hstored : GoesOnToStored cx (.answered i (.oauthCallback provider query answer)
      (.ok (.callback outcome)) b) (ownEvents i earlier) :=
    Along.of_append (P := AlongOwn (GoesOnToStored cx)) hall
  have hpath : outcome.redirect? = some path := by
    cases hredirect : outcome.redirect? with
    | none => cases outcome <;> simp [CallbackOutcome.redirect?, CallbackOutcome.completes] at *
    | some stored =>
        obtain ⟨raw', b', row, hraw', hclaim, hget, rfl⟩ := hstored stored hredirect
        obtain rfl : raw = raw' := Option.some.inj (hstate.symm.trans hraw')
        obtain ⟨newer, older, hsplit⟩ := List.append_of_mem (mem_ownEvents.mp hclaim).1
        have hhist' : c.world.history = (later ++ .answered i (.oauthCallback provider query answer)
            (.ok (.callback outcome)) b :: newer) ++ .ran i (.oauthCallback provider query answer)
              (.sql (.oauthStates (.claim (cx.sha256 raw)))) b' :: older := by
          rw [hhist, hsplit, List.append_assoc, List.cons_append]
        rw [hc.path_of_state hnew hdistinct he hbegins hhist' hget]
  refine ⟨fun location ↦ returnsTo_of_redirect hpath, exists_frontendRedirect outcome, ?_⟩
  intro parseHost o
  cases hbegins with
  | login h =>
      obtain ⟨hrooted, hplain⟩ := rooted_safeRedirectPath _
      exact o.keeps_of_rooted parseHost hplain hrooted
  | link h =>
      have hrooted : Url.Rooted "/settings".toList := ⟨"settings".toList, rfl, by simp⟩
      have hplain : ∀ c ∈ "/settings".toList, isTabOrNewline c = false := by simp [isTabOrNewline]
      exact o.keeps_of_rooted parseHost hplain hrooted

end Runs

namespace RedirectSample

open Sample

/-- The page Ada was on when she chose to sign in. -/
def page : String := "/settings?tab=a&b=c"

def state : String := Context.sample.randomToken 0

def schedule : List (Action Request ℕ) :=
  alone 0 (.oauthLogin .google (some page)) 6 ++
    alone 1 (.oauthCallback .google ⟨some "code", some state, none⟩
      (some ⟨"sub-1", some "ada@example.com", true, none⟩)) 12

/-- A flow that asks for the page begins. -/
def beginsHere : AppEvent → Bool
  | .ran _ (.oauthLogin _ (some redirect)) (.sql (.oauthStates (.insert row))) _ =>
      decide (redirect = page) && decide (row.stateHash = Context.sample.sha256 state)
  | _ => false

/-- The flow completes. -/
def completesHere : AppEvent → Bool
  | .answered _ (.oauthCallback _ query _) (.ok (.callback outcome)) _ =>
      decide (query.state = some state) && outcome.completes
  | _ => false

theorem distinct : Context.sample.DistinctDraws (.state (Context.sample.sha256 state)) 4 := by
  have hsource : ∀ m < 4, ∀ n < 4, Context.sample.sha256 (Context.sample.randomToken m) =
      Context.sample.sha256 state → Context.sample.sha256 (Context.sample.randomToken n) =
        Context.sample.sha256 state → m = n := by decide
  exact fun m n hm hn ↦ hsource m hm n hn

end RedirectSample

theorem redirects_survive_signIn :
    ∃ c, Reached .sample (Sample.server .empty) c ∧ ∃ e ∈ c.world.history,
      ∃ i k outcome b location, e = .answered i k (.ok (.callback outcome)) b ∧
        frontendRedirect Context.sample.frontendUrl outcome = some location ∧
          ReturnsTo Context.sample.frontendUrl RedirectSample.page location := by
  let test : AppConfig → Bool := fun c ↦ decide (c.world.store.draws = 4) &&
    c.world.history.any RedirectSample.beginsHere &&
      c.world.history.any RedirectSample.completesHere
  obtain ⟨c, hc, htest⟩ : ∃ c, Reached .sample (Sample.server .empty) c ∧ test c = true :=
    Reachable.of_schedule RedirectSample.schedule test (by decide) (by decide)
  simp only [test, Bool.and_eq_true, decide_eq_true_eq, List.any_eq_true] at htest
  obtain ⟨⟨hdraws, x, hx, hbegins⟩, e, he, hdone⟩ := htest
  refine ⟨c, hc, e, he, ?_⟩
  obtain ⟨later, earlier, hhist⟩ := List.append_of_mem he
  unfold RedirectSample.beginsHere at hbegins
  split at hbegins
  next j provider redirect row b =>
    simp only [Bool.and_eq_true, decide_eq_true_eq] at hbegins
    obtain ⟨rfl, hhash⟩ := hbegins
    unfold RedirectSample.completesHere at hdone
    split at hdone
    next i provider' query answer outcome b' =>
      simp only [Bool.and_eq_true, decide_eq_true_eq] at hdone
      obtain ⟨hlocation, hexists, -⟩ := redirects_survive hc hhist hdone.2 hdone.1 hx
        (.login hhash) rfl (hdraws ▸ RedirectSample.distinct)
      obtain ⟨location, hredirect⟩ := hexists (by decide)
      exact ⟨i, _, outcome, b', location, rfl, hredirect, hlocation location hredirect⟩
    next => cases hdone
  next => cases hbegins

end ApiStarter
