import ApiStarter.AuthorizationCodes

/-!
# The word of a provider

What a callback knows of a person is read from the provider's answers, asked for
with the token that the code was traded for.  An account at the provider is
attached, and signed in with, only if the answers name it; and without a link
flow only if they also say that its address is verified.
-/

namespace ApiStarter

open Interleave Interleave.Prog Relational

/-! ## What an answer says -/

namespace Value

/-- The profile is of this account. -/
def Identifies : Provider → Value → String → Prop
  | .google, body, x => body.text "sub" = some x
  | .github, body, x => ∃ id, (body.get "id").bind asI64 = some id ∧ x = toString id

/-- The profile has the address and says that it is verified, as a truth value or in words. -/
def SaysVerified (body : Value) (address : String) : Prop :=
  body.text "email" = some address ∧ (body.get "email_verified" = some (.bool true) ∨
    body.get "email_verified" = some (.string "true"))

/-- The list has the address among the verified ones, and as the primary one unless no primary
one is verified. -/
def ListsVerified (body : Value) (address : String) : Prop :=
  ∃ entries entry, body.asArray = some entries ∧ entry ∈ entries ∧
    ProviderClient.isMarked "verified" entry = true ∧ entry.text "email" = some address ∧
    ∀ other ∈ entries, ProviderClient.isMarked "verified" other = true →
      ProviderClient.isMarked "primary" other = true →
        ProviderClient.isMarked "primary" entry = true

end Value

namespace ProviderClient

section Answers

variable {client : ProviderClient} {network : Network} {accessToken : String}

/-- The profile that the provider has for the token is of this account. -/
def Names (client : ProviderClient) (network : Network) (accessToken : String)
    (provider : Provider) (x : String) : Prop :=
  ∃ settings body, client.settings provider = some settings ∧
    getJson network settings.userinfoUrl accessToken = .ok body ∧ body.Identifies provider x

/-- The provider says, asked with the token, that the person controls the address. -/
inductive Verifies (client : ProviderClient) (network : Network) (accessToken : String) :
    Provider → String → Prop
  | google {settings : OAuthProviderConfig} {body : Value} {address : String}
      (hsettings : client.settings .google = some settings)
      (hasked : getJson network settings.userinfoUrl accessToken = .ok body)
      (hverified : body.SaysVerified address) : Verifies client network accessToken .google address
  | github {settings : OAuthProviderConfig} {url : String} {body : Value} {address : String}
      (hsettings : client.settings .github = some settings)
      (hurl : settings.emailsUrl = some url) (hasked : getJson network url accessToken = .ok body)
      (hlists : body.ListsVerified address) : Verifies client network accessToken .github address

theorem mem_of_chosenEntry {entries : List Value} {entry : Value}
    (h : chosenEntry entries = some entry) : entry ∈ entries ∧ isMarked "verified" entry = true ∧
      ∀ other ∈ entries, isMarked "verified" other = true → isMarked "primary" other = true →
        isMarked "primary" entry = true := by
  unfold chosenEntry at h
  split at h
  next found hfound =>
    obtain rfl := Option.some.inj h
    obtain ⟨hmem, hverified⟩ := List.mem_filter.mp (List.mem_of_find?_eq_some hfound)
    exact ⟨hmem, hverified, fun _ _ _ _ ↦ List.find?_some hfound⟩
  next hnone =>
    refine ⟨List.mem_of_find?_eq_some h, List.find?_some h, ?_⟩
    intro other hother hverified hprimary
    have hfiltered := List.mem_filter.mpr ⟨hother, hverified⟩
    exact absurd hprimary (List.find?_eq_none.mp hnone other hfiltered)

theorem says_of_googleProfile {profile : ProviderProfile}
    (h : client.googleProfile network accessToken = .ok profile) :
    client.Names network accessToken .google profile.providerUserId ∧
      ∀ address, profile.emailVerified = true → profile.email = some address →
        client.Verifies network accessToken .google address := by
  obtain ⟨settings, hrequire, h⟩ := exists_of_bind_eq_ok h
  obtain ⟨body, hasked, h⟩ := exists_of_bind_eq_ok h
  have hsettings := settings_of_require hrequire
  unfold parseGoogleProfile at h
  split at h
  next => cases h
  next sub hsub =>
    obtain rfl := Except.ok.inj h
    refine ⟨⟨settings, body, hsettings, hasked, hsub⟩, ?_⟩
    intro address hverified hemail
    refine .google hsettings hasked ⟨hemail, ?_⟩
    dsimp only at hverified
    split at hverified
    next b hfield => exact .inl (hverified ▸ hfield)
    next s hfield =>
      obtain rfl := of_decide_eq_true hverified
      exact .inr hfield
    next => cases hverified

theorem says_of_githubProfile {profile : ProviderProfile}
    (h : client.githubProfile network accessToken = .ok profile) :
    client.Names network accessToken .github profile.providerUserId ∧
      ∀ address, profile.email = some address →
        client.Verifies network accessToken .github address := by
  obtain ⟨settings, hrequire, h⟩ := exists_of_bind_eq_ok h
  obtain ⟨user, hasked, h⟩ := exists_of_bind_eq_ok h
  have hsettings := settings_of_require hrequire
  unfold parseGithubProfile at h
  split at h
  next => cases h
  next id hid =>
    obtain rfl := Except.ok.inj h
    refine ⟨⟨settings, user, hsettings, hasked, id, hid, rfl⟩, ?_⟩
    intro address hemail
    obtain ⟨entry, hentry, haddress⟩ := Option.bind_eq_some_iff.mp hemail
    obtain ⟨entries, hentries, hchosen⟩ := Option.bind_eq_some_iff.mp hentry
    obtain ⟨list, hlist, harray⟩ := Option.bind_eq_some_iff.mp hentries
    obtain ⟨url, hurl, hanswer⟩ := Option.bind_eq_some_iff.mp hlist
    obtain ⟨hmem, hverified, hprimary⟩ := mem_of_chosenEntry hchosen
    exact .github hsettings hurl (eq_ok_of_toOption hanswer)
      ⟨entries, entry, harray, hmem, hverified, haddress, hprimary⟩

/-- A profile has the account that the provider names, and an address as verified only on the
provider's word. -/
theorem says_of_fetchProfile {provider : Provider} {profile : ProviderProfile}
    (h : client.fetchProfile network provider accessToken = .ok profile) :
    client.Names network accessToken provider profile.providerUserId ∧
      ∀ address, profile.emailVerified = true → profile.email = some address →
        client.Verifies network accessToken provider address := by
  cases provider with
  | google => exact says_of_googleProfile h
  | github =>
      obtain ⟨hnames, hverifies⟩ := says_of_githubProfile h
      exact ⟨hnames, fun address _ hemail ↦ hverifies address hemail⟩

end Answers

end ProviderClient

/-! ## One request -/

/-- The thread has claimed the state that its callback presents, and found this row. -/
def FoundState {κ : Type} (cx : Context) (i : ℕ) (k : κ) (query : CallbackQuery)
    (row : OAuthState) (own : List (LabelledEvent κ)) : Prop :=
  ∃ raw b, query.state = some raw ∧
    .ran i k (.sql (.oauthStates (.claim (cx.sha256 raw)))) b ∈ own ∧
      b.db.oauthStates.get? (cx.sha256 raw) = some row

/-- An account is attached only after the state of its callback was found. -/
def AttachesClaimed (cx : Context) : AppEvent → List AppEvent → Prop
  | .ran i (.oauthCallback provider query answer) (.sql (.oauthIdentities (.insert ..))) _, own =>
      query.code.isSome = true ∧
        ∃ row, FoundState cx i (.oauthCallback provider query answer) query row own
  | _, _ => True

theorem FoundState.mono {cx : Context} {i : ℕ} {k : Request} {query : CallbackQuery}
    {row : OAuthState} {own own' : List AppEvent} (h : FoundState cx i k query row own)
    (hsub : own ⊆ own') : FoundState cx i k query row own' := by
  obtain ⟨raw, b, hraw, hclaim, hget⟩ := h
  exact ⟨raw, b, hraw, hsub hclaim, hget⟩

theorem attachesClaimed_of_found {cx : Context} {i : ℕ} {provider : Provider}
    {query : CallbackQuery} {answer : Option ProviderProfile} {row : OAuthState}
    {own : List AppEvent} (hcode : query.code.isSome = true)
    (h : FoundState cx i (.oauthCallback provider query answer) query row own) (q : Statement)
    (s : Server) :
    AttachesClaimed cx (.ran i (.oauthCallback provider query answer) q s) own := by
  unfold AttachesClaimed
  split
  next heq =>
    obtain ⟨rfl, hk, -, -⟩ := Event.ran.inj heq
    obtain ⟨rfl, rfl, rfl⟩ := Request.oauthCallback.inj hk
    exact ⟨hcode, row, h⟩
  next => trivial

theorem traces_attachesClaimed (cx : Context) (k : Request) :
    Traces (machine cx) (AttachesClaimed cx) k (handle cx) := by
  cases k with
  | oauthCallback provider query answer =>
      intro i
      have hE (reason : String) (own : List AppEvent) : Delivers (AttachesClaimed cx) i
          (.oauthCallback provider query answer) (.ok (.callback (.failed reason))) own :=
        fun _ ↦ trivial
      apply traced_bind.mpr
      apply traced_bind.mpr
      apply traced_bindBoth.mpr
      apply traced_bind.mpr
      apply (traced_okOr ..).mpr
      refine ⟨fun raw hraw ↦ ?_, fun _ ↦ hE _ _⟩
      apply traced_bind.mpr
      apply traced_mapErr.mpr
      apply traced_sql (fun _ ↦ trivial) _ (fun _ _ ↦ hE _ _) (hE _ _)
      intro s claimed hclaimed
      apply traced_bind.mpr
      apply (traced_okOr ..).mpr
      refine ⟨fun row hrow ↦ ?_, fun _ ↦ hE _ _⟩
      subst hrow
      obtain ⟨hget, -, -⟩ := OAuthStateSql.claim_eq_some hclaimed
      apply traced_bind.mpr
      apply (traced_ensure ..).mpr
      refine ⟨fun _ ↦ ?_, fun _ ↦ hE _ _⟩
      apply traced_bind.mpr
      apply (traced_ensure ..).mpr
      refine ⟨fun _ ↦ ?_, fun _ ↦ hE _ _⟩
      apply traced_bind.mpr
      apply (traced_okOr ..).mpr
      refine ⟨fun code hcode ↦ ?_, fun _ ↦ hE _ _⟩
      apply traced_bind.mpr
      apply (traced_okOr ..).mpr
      refine ⟨fun accessToken _ ↦ ?_, fun _ ↦ hE _ _⟩
      apply traced_bind.mpr
      apply (traced_okOr ..).mpr
      refine ⟨fun profile _ ↦ ?_, fun _ ↦ hE _ _⟩
      -- from here on the claim is among what the thread has done
      let k : Request := .oauthCallback provider query answer
      have hfound : FoundState cx i k query row [.ran i k (.sql (.oauthStates (.claim
          (cx.sha256 raw)))) s] := ⟨raw, s, hraw, List.mem_cons_self, hget⟩
      apply (traced_of_only (A := FoundState cx i k query row) (only_true _) (returns_true _) _
        hfound).mono
      · exact fun _ _ _ _ ↦ trivial
      · exact fun reason own _ ↦ hE reason own
      · intro q _ s own hfound
        have hsome : query.code.isSome = true := by rw [hcode]; rfl
        exact ⟨attachesClaimed_of_found hsome hfound q s,
          hfound.mono (List.subset_cons_self _ _)⟩
  | _ =>
      exact .of_only (S := fun _ ↦ True) (only_true _) (fun _ _ _ _ _ ↦ trivial)
        fun _ a _ _ ↦ by cases a <;> trivial

/-! ## All runs -/

/-- The event of the request, whatever a callback will be told. -/
def requestEvent : IncomingEvent → AppEvent := Event.relabel fun _ k ↦ k.request none

/-- What the thread has done, as requests do it. -/
def ownRequests (i : ℕ) (h : List IncomingEvent) : List AppEvent :=
  (ownEvents i h).map requestEvent

/-- What does not depend on the label of an event holds of one under another label. -/
theorem exists_ownRequests {i : ℕ} {h : List IncomingEvent} {f : ℕ → Incoming → Request}
    {P : AppEvent → Prop} (hP : ∀ e, P (e.relabel f) → P (requestEvent e))
    (hex : ∃ e ∈ ownEvents i (h.map (Event.relabel f)), P e) : ∃ e ∈ ownRequests i h, P e := by
  obtain ⟨e', he', hPe⟩ := hex
  obtain ⟨hmem, htid⟩ := mem_ownEvents.mp he'
  obtain ⟨e, he, rfl⟩ := List.mem_map.mp hmem
  rw [Event.tid_relabel] at htid
  exact ⟨requestEvent e, List.mem_map_of_mem (mem_ownEvents.mpr ⟨he, htid⟩), hP e hPe⟩

theorem claimedState_relabel (f : ℕ → Incoming → Request) (e : IncomingEvent) :
    claimedState (e.relabel f) = claimedState (requestEvent e) := by
  cases e with
  | answered => rfl
  | ran i k q b =>
      cases q with
      | sql q =>
          cases q with
          | oauthStates q => cases q <;> rfl
          | _ => rfl
      | _ => rfl

/-- The thread's callback has traded its code with the verifier stored with its state, and asks
the provider with the token it got. -/
def AsksWith (cx : Context) (client : ProviderClient) (i : ℕ) (provider : Provider)
    (query : CallbackQuery) (network : Network) (own : List IncomingEvent)
    (accessToken : String) : Prop :=
  ∃ code row, query.code = some code ∧
    FoundState cx i (.callback provider query network) query row own ∧
      client.exchangeCode network provider code row.pkceVerifier = .ok accessToken

/-- What the provider has said of an account that the request attaches or signs in with. -/
structure ProvidersTrusted (cx : Context) (client : ProviderClient)
    (history : List IncomingEvent) : Prop where
  attached : ∀ later i k a provider x email b earlier, history = later ++
    .ran i k (.sql (.oauthIdentities (.insert a provider x email))) b :: earlier →
      ∃ query network accessToken, k = .callback provider query network ∧
        AsksWith cx client i provider query network (ownEvents i earlier) accessToken ∧
        client.Names network accessToken provider x ∧
        ((∃ e ∈ ownRequests i earlier, ClaimedFor provider a e) ∨
          ∃ address, client.Verifies network accessToken provider address ∧
            ∃ e ∈ ownRequests i earlier, FindsVerified a (cx.normalizeEmail address) e ∨
              Creates cx a (cx.normalizeEmail address) e)
  loggedIn : ∀ later i k grant redirect b earlier, history = later ++
    .answered i k (.ok (.callback (.loggedIn grant redirect))) b :: earlier →
      ∃ provider query network accessToken x a, k = .callback provider query network ∧
        AsksWith cx client i provider query network (ownEvents i earlier) accessToken ∧
        client.Names network accessToken provider x ∧
        (∃ e ∈ ownRequests i earlier, LeavesHeld cx provider x a e) ∧
        ∃ e ∈ ownRequests i earlier, StoresGrant a (cx.sha256 grant) e

section Runs

variable {cx : Context} {client : ProviderClient} {conforms : Provider → Network → Prop}
  {s : Server} {c : IncomingConfig}

/-- A callback that goes on after its claim got its profile by asking its network so. -/
theorem Connected.asksWith (hc : Connected cx client conforms s c)
    {told : ℕ → Option ProviderProfile}
    (htold : ∀ i k q b, .ran i k q b ∈ c.world.history → k.Told client (told i) q b)
    {earlier : List IncomingEvent} (hsub : earlier ⊆ c.world.history) {e : IncomingEvent}
    (he : e ∈ c.world.history) {provider : Provider} {query : CallbackQuery}
    {profile : ProviderProfile} {row : OAuthState} (hcode : query.code.isSome = true)
    (hfound : FoundState cx e.tid (.oauthCallback provider query (some profile)) query row
      (ownEvents e.tid (earlier.map (Event.relabel fun i k ↦ k.request (told i))))) :
    ∃ network accessToken, e.request = .callback provider query network ∧
      AsksWith cx client e.tid provider query network (ownEvents e.tid earlier) accessToken ∧
      client.fetchProfile network provider accessToken = .ok profile := by
  obtain ⟨code, hcode⟩ := Option.isSome_iff_exists.mp hcode
  obtain ⟨raw, b, hraw, hclaim, hget⟩ := hfound
  obtain ⟨network, -, hran, htells⟩ := hc.claim_mem htold hsub (mem_ownEvents.mp hclaim).1
  have hprofile : client.profile network provider code row.pkceVerifier = .ok profile :=
    eq_ok_of_toOption (htells code row hcode hget).symm
  obtain ⟨accessToken, hexchange, hfetch⟩ := exists_of_bind_eq_ok hprofile
  have hrequest : e.request = .callback provider query network :=
    hc.request_eq he (hsub hran) rfl
  exact ⟨network, accessToken, hrequest, ⟨code, row, hcode,
    ⟨raw, b, hraw, mem_ownEvents.mpr ⟨hran, rfl⟩, hget⟩, hexchange⟩, hfetch⟩

/-- Whatever is interleaved, an account at a provider is attached or signed in with only on the
word of the provider, given for the code and the verifier of the flow. -/
theorem providers_trusted (hc : Connected cx client (fun _ _ ↦ True) s c) :
    ProvidersTrusted cx client c.world.history := by
  obtain ⟨told, c', hc', hworld, htold⟩ := hc.reached
  have split {later earlier : List IncomingEvent} {e : IncomingEvent}
      (hhist : c.world.history = later ++ e :: earlier) :
      e ∈ c.world.history ∧ earlier ⊆ c.world.history ∧ c'.world.history =
        later.map (Event.relabel fun i k ↦ k.request (told i)) ++
          e.relabel (fun i k ↦ k.request (told i)) ::
            earlier.map (Event.relabel fun i k ↦ k.request (told i)) := by
    refine ⟨by simp [hhist], ?_, ?_⟩
    · rw [hhist]
      exact fun e he ↦ List.mem_append_right _ (List.mem_cons_of_mem _ he)
    · rw [hworld, World.relabel_split hhist]
  refine ⟨?_, ?_⟩
  · intro later i k a provider x email b earlier hhist
    obtain ⟨hmem, hsub, hhist'⟩ := split hhist
    obtain ⟨query, profile, hk, rfl, hvouched⟩ := hc'.identitySteps hhist'
    have hclaimed : AttachesClaimed cx (.ran i (k.request (told i))
        (.sql (.oauthIdentities (.insert a provider profile.providerUserId email))) b)
        (ownEvents i (earlier.map (Event.relabel fun i k ↦ k.request (told i)))) :=
      Along.of_append (P := AlongOwn (AttachesClaimed cx))
        (hhist' ▸ hc'.traces fun k _ ↦ traces_attachesClaimed cx k)
    rw [show k.request (told i) = _ from hk] at hclaimed
    obtain ⟨hcode, row, hfound⟩ := hclaimed
    obtain ⟨network, accessToken, hrequest, hwith, hfetch⟩ :=
      hc.asksWith htold hsub hmem hcode hfound
    obtain ⟨hnames, hverifies⟩ := ProviderClient.says_of_fetchProfile hfetch
    refine ⟨query, network, accessToken, hrequest, hwith, hnames, ?_⟩
    rcases hvouched with hlinking | ⟨email, ⟨hverified, address, haddress, rfl⟩, hown⟩
    · refine .inl (exists_ownRequests (fun e hfor ↦ ?_) hlinking)
      rwa [ClaimedFor, claimedState_relabel] at hfor
    · exact .inr ⟨address, hverifies address hverified haddress,
        exists_ownRequests (fun e h ↦ by cases e <;> exact h) hown⟩
  · intro later i k grant redirect b earlier hhist
    obtain ⟨hmem, hsub, hhist'⟩ := split hhist
    obtain ⟨provider, query, profile, a, hk, hheld, hgrant⟩ := hc'.identitySteps hhist'
    have hclaimed : CompletesClaimed cx (.answered i (k.request (told i))
        (.ok (.callback (.loggedIn grant redirect))) b)
        (ownEvents i (earlier.map (Event.relabel fun i k ↦ k.request (told i)))) :=
      Along.of_append (P := AlongOwn (CompletesClaimed cx))
        (hhist' ▸ hc'.traces fun k _ ↦ traces_completesClaimed cx k)
    rw [show k.request (told i) = _ from hk] at hclaimed
    obtain ⟨-, hcode, -, raw, b₁, row, hraw, hclaim, hget, -⟩ := hclaimed rfl
    obtain ⟨network, accessToken, hrequest, hwith, hfetch⟩ :=
      hc.asksWith htold hsub hmem hcode ⟨raw, b₁, hraw, hclaim, hget⟩
    obtain ⟨hnames, -⟩ := ProviderClient.says_of_fetchProfile hfetch
    exact ⟨provider, query, network, accessToken, profile.providerUserId, a, hrequest, hwith,
      hnames, exists_ownRequests (fun e h ↦ by cases e <;> exact h) hheld,
      exists_ownRequests (fun e h ↦ by cases e <;> exact h) hgrant⟩

end Runs

/-- Somebody is signed in by the callback. -/
def ProviderSample.signsInHere : AppEvent → Bool
  | .answered _ _ (.ok (.callback (.loggedIn ..))) _ => true
  | _ => false

theorem providers_trusted_google :
    ∃ c, Connected ProviderSample.cx ProviderSample.client (fun _ _ ↦ True)
        (Sample.server .empty) c ∧ ∃ e ∈ c.world.history,
      ∃ i k grant redirect b provider network accessToken x,
        e = .answered i k (.ok (.callback (.loggedIn grant redirect))) b ∧
        ProviderSample.client.Names network accessToken provider x := by
  let test : AppConfig → Bool := fun c ↦ c.world.history.any ProviderSample.signsInHere &&
    c.world.history.all ProviderSample.asksHere
  obtain ⟨c₀, hc₀, htest⟩ : ∃ c, Reached ProviderSample.cx (Sample.server .empty) c ∧
      test c = true :=
    Reachable.of_schedule ProviderSample.schedule test (by decide) (by decide)
  simp only [test, Bool.and_eq_true, List.any_eq_true, List.all_eq_true] at htest
  obtain ⟨⟨e, he, hsigns⟩, hall⟩ := htest
  obtain ⟨c, hc, hworld⟩ : ∃ c, Connected ProviderSample.cx ProviderSample.client
      (fun _ _ ↦ True) (Sample.server .empty) c ∧
        c.world = c₀.world.relabel fun _ k ↦ Incoming.asking ProviderSample.network k :=
    hc₀.connected ProviderSample.network (fun _ ↦ trivial)
      fun _ _ _ _ _ _ hran ↦ ProviderSample.tells (hall _ hran)
  unfold ProviderSample.signsInHere at hsigns
  split at hsigns
  next i k grant redirect b =>
    have hmem : .answered i (Incoming.asking ProviderSample.network k)
        (.ok (.callback (.loggedIn grant redirect))) b ∈ c.world.history := by
      rw [hworld]
      exact Event.answered_mem_relabel (f := fun _ k ↦ Incoming.asking ProviderSample.network k) he
    obtain ⟨later, earlier, hhist⟩ := List.append_of_mem hmem
    obtain ⟨provider, -, network, accessToken, x, -, -, -, hnames, -⟩ :=
      (providers_trusted hc).loggedIn _ _ _ _ _ _ _ hhist
    exact ⟨c, hc, _, hmem, i, _, grant, redirect, b, provider, network, accessToken, x, rfl,
      hnames⟩
  next => cases hsigns

end ApiStarter
