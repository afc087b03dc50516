import ApiStarter.Exchanges
import ApiStarter.OAuthRedirects

/-!
# Authorization codes

A flow hands out an address of the provider with a state and the challenge of a
verifier that stays on the server.  The address is read at the provider as it
was meant, and the code that comes back is traded with the verifier stored with
the state.  A provider that compares the verifier with the challenge of the
address it gave the code for accepts the code in no flow but its own.
-/

namespace ApiStarter

open Interleave Interleave.Prog Relational Web

/-! ## The address that is handed out -/

def Provider.authorizeHost : Provider → String
  | .google => "accounts.google.com"
  | .github => "github.com"

def Provider.authorizePath : Provider → List String
  | .google => ["o", "oauth2", "v2", "auth"]
  | .github => ["login", "oauth", "authorize"]

/-- The authorization endpoint of the provider, on a host as the parser of hosts gives it. -/
def Provider.endpoint (provider : Provider) (host : String) : Url :=
  ⟨"https", "", "", some host, none, .segments provider.authorizePath, none, none⟩

theorem isRemote_authorizeUrl (provider : Provider) (clientId clientSecret : String) :
    Url.IsRemote (provider.config clientId clientSecret).authorizeUrl := by
  cases provider with
  | google =>
      have hscheme : Url.schemeOf (Url.clean "https://accounts.google.com/o/oauth2/v2/auth") =
          some ("https", "//accounts.google.com/o/oauth2/v2/auth".toList) := by decide
      exact ⟨_, _, hscheme, by decide⟩
  | github =>
      have hscheme : Url.schemeOf (Url.clean "https://github.com/login/oauth/authorize") =
          some ("https", "//github.com/login/oauth/authorize".toList) := by decide
      exact ⟨_, _, hscheme, by decide⟩

theorem parse_authorizeUrl (parseHost : HostParser) (provider : Provider)
    (clientId clientSecret : String) :
    Url.parse parseHost (provider.config clientId clientSecret).authorizeUrl =
      (parseHost true provider.authorizeHost).map provider.endpoint := by
  cases provider with
  | google =>
      have hparse : Url.parse parseHost "https://accounts.google.com/o/oauth2/v2/auth" =
          (parseHost true "accounts.google.com").bind fun host ↦
            some (Provider.google.endpoint host) := rfl
      exact hparse.trans Option.map_eq_bind.symm
  | github =>
      have hparse : Url.parse parseHost "https://github.com/login/oauth/authorize" =
          (parseHost true "github.com").bind fun host ↦
            some (Provider.github.endpoint host) := rfl
      exact hparse.trans Option.map_eq_bind.symm

section Client

variable {env : Environment} {bindPort : ℕ} {config : OAuthConfig} {provider : Provider}
  {settings : OAuthProviderConfig}

theorem config_of_providerFromEnv {idName secretName : String}
    {found : Option OAuthProviderConfig}
    (h : OAuthConfig.providerFromEnv env provider idName secretName = .ok found)
    (hsettings : found = some settings) :
    ∃ clientId clientSecret, settings = provider.config clientId clientSecret := by
  unfold OAuthConfig.providerFromEnv at h
  split at h
  · obtain rfl := Except.ok.inj h
    exact ⟨_, _, (Option.some.inj hsettings).symm⟩
  · obtain rfl := Except.ok.inj h
    cases hsettings
  · cases h

/-- A configured provider has its own addresses. -/
theorem config_of_settings (h : OAuthConfig.fromEnv env bindPort = .ok config)
    (hsettings : (ProviderClient.new config).settings provider = some settings) :
    ∃ clientId clientSecret, settings = provider.config clientId clientSecret := by
  obtain ⟨publicApiUrl, -, h⟩ := exists_of_bind_eq_ok h
  obtain ⟨google, hgoogle, h⟩ := exists_of_bind_eq_ok h
  obtain ⟨github, hgithub, h⟩ := exists_of_bind_eq_ok h
  obtain rfl := Except.ok.inj h
  cases provider with
  | google => exact config_of_providerFromEnv hgoogle hsettings
  | github => exact config_of_providerFromEnv hgithub hsettings

/-- An address handed out is the provider's endpoint with the parameters of the flow. -/
theorem parse_of_authorizeUrl {parseHost : HostParser} (hdoc : parseHost.Documented)
    (h : OAuthConfig.fromEnv env bindPort = .ok config) {state challenge url : String}
    (hurl : (ProviderClient.new config).authorizeUrl parseHost provider state challenge =
      .ok url) :
    ∃ settings host, (ProviderClient.new config).settings provider = some settings ∧
      parseHost true provider.authorizeHost = some host ∧
      Url.parse parseHost url = some ((provider.endpoint host).appendPairs
        ((ProviderClient.new config).authorizePairs settings provider state challenge)) := by
  obtain ⟨settings, hrequire, hurl⟩ := exists_of_bind_eq_ok hurl
  have hsettings := ProviderClient.settings_of_require hrequire
  obtain ⟨clientId, clientSecret, rfl⟩ := config_of_settings h hsettings
  split at hurl
  next u hparse =>
    obtain rfl := Except.ok.inj hurl
    have hremote := isRemote_authorizeUrl provider clientId clientSecret
    have hread := Url.parse_appended hdoc hremote hparse
    rw [parse_authorizeUrl] at hparse
    obtain ⟨host, hhost, rfl⟩ := Option.map_eq_some_iff.mp hparse
    exact ⟨_, host, hsettings, hhost, hread _⟩
  next => cases hurl

end Client

/-! ## The code that comes back -/

/-- The answer carries an access token. -/
def HttpResponse.GrantsToken (r : HttpResponse) : Prop :=
  r.isSuccess = true ∧ ∃ body token, r.json = .ok body ∧ body.text "access_token" = some token

/-- A code that the provider gave out, with the parameters of the address a browser came with. -/
structure Authorization where
  code : String
  parameters : List (String × String)

/-- The first value under the name. -/
def valueOf (pairs : List (String × String)) (name : String) : Option String :=
  (pairs.find? fun pair ↦ decide (pair.1 = name)).map Prod.snd

/-- The token endpoint grants a token for a code that was given out, to the client and the
redirect address it was given out for, and against the verifier of its challenge. -/
def GrantsChecked (decoder : Utf8Decoder) (s256 : String → String)
    (granted : Authorization → Prop) (tokenUrl : String) (network : Network) : Prop :=
  ∀ form response, network (.post tokenUrl form) = .ok response → response.GrantsToken →
    ∃ a, granted a ∧ formValue decoder form "code" = some a.code ∧
      formValue decoder form "client_id" = valueOf a.parameters "client_id" ∧
      formValue decoder form "redirect_uri" = valueOf a.parameters "redirect_uri" ∧
      (formValue decoder form "code_verifier").map s256 = valueOf a.parameters "code_challenge"

/-- The network's token endpoint of the provider, where it is set up, does so. -/
def ProviderClient.Checked (client : ProviderClient) (decoder : Utf8Decoder)
    (s256 : String → String) (granted : Provider → Authorization → Prop) (provider : Provider)
    (network : Network) : Prop :=
  ∀ settings, client.settings provider = some settings →
    GrantsChecked decoder s256 (granted provider) settings.tokenUrl network

theorem grantsToken_of_exchange {client : ProviderClient} {network : Network}
    {provider : Provider} {code verifier token : String}
    (h : client.exchangeCode network provider code verifier = .ok token) :
    ∃ settings response, client.settings provider = some settings ∧
      network (.post settings.tokenUrl
        (formSerialize (client.exchangePairs settings provider code verifier))) = .ok response ∧
      response.GrantsToken := by
  obtain ⟨settings, hrequire, h⟩ := exists_of_bind_eq_ok h
  obtain ⟨response, hresponse, h⟩ := exists_of_bind_eq_ok h
  obtain ⟨body, hbody, h⟩ := exists_of_bind_eq_ok h
  refine ⟨settings, response, ProviderClient.settings_of_require hrequire,
    eq_ok_of_mapError hresponse, ?_⟩
  split at h
  next found hfound =>
    split at h
    next hsuccess => exact ⟨hsuccess, body, found, eq_ok_of_mapError hbody, hfound⟩
    next => cases h
  next => cases h

/-- A profile is had only with a code that was given out for the verifier's challenge. -/
theorem authorization_of_profile {client : ProviderClient} {network : Network}
    {provider : Provider} {code verifier : String} {profile : ProviderProfile}
    {decoder : Utf8Decoder} {s256 : String → String} {granted : Provider → Authorization → Prop}
    (hchecked : client.Checked decoder s256 granted provider network)
    (h : client.profile network provider code verifier = .ok profile) :
    ∃ settings a, client.settings provider = some settings ∧ granted provider a ∧ a.code = code ∧
      valueOf a.parameters "client_id" = some settings.clientId ∧
      valueOf a.parameters "redirect_uri" = some (client.redirectUri provider) ∧
      valueOf a.parameters "code_challenge" = some (s256 verifier) := by
  obtain ⟨token, htoken, -⟩ := exists_of_bind_eq_ok h
  obtain ⟨settings, response, hsettings, hsent, hgrants⟩ := grantsToken_of_exchange htoken
  obtain ⟨a, ha, hcode, hclient, hredirect, hchallenge⟩ :=
    hchecked settings hsettings _ response hsent hgrants
  have hvalue (name : String) : formValue decoder
      (formSerialize (client.exchangePairs settings provider code verifier)) name =
        valueOf (client.exchangePairs settings provider code verifier) name := by
    rw [formValue, formParse_formSerialize]
    rfl
  rw [hvalue] at hcode hclient hredirect hchallenge
  refine ⟨settings, a, hsettings, ha, ?_, ?_, ?_, ?_⟩
  · exact (Option.some.inj hcode).symm
  · exact hclient.symm
  · exact hredirect.symm
  · exact hchallenge.symm

/-! ## One request -/

/-- The provider whose flow the request starts. -/
def Request.starts : Request → Option Provider
  | .oauthLogin provider _ | .oauthLink _ provider => some provider
  | _ => none

/-- The thread drew the state and the verifier of the row itself. -/
def DrewRow (cx : Context) (i : ℕ) (k : Request) (row : OAuthState) (raw : String)
    (own : List AppEvent) : Prop :=
  ∃ b₁ b₂, .ran i k .draw b₁ ∈ own ∧ .ran i k .draw b₂ ∈ own ∧ raw = cx.randomToken b₁.draws ∧
    row.stateHash = cx.sha256 raw ∧ row.pkceVerifier = cx.randomToken b₂.draws

/-- A flow is stored with values its request drew, and the address handed out has them. -/
def FlowDrawn (cx : Context) : AppEvent → List AppEvent → Prop
  | .ran i k (.sql (.oauthStates (.insert row))) _, own =>
      k.starts = some row.provider ∧ ∃ raw, DrewRow cx i k row raw own
  | .answered i k (.ok (.authorizeUrl url)) _, own => ∀ provider, k.starts = some provider →
      ∃ row raw b, .ran i k (.sql (.oauthStates (.insert row))) b ∈ own ∧
        row.provider = provider ∧ DrewRow cx i k row raw own ∧
        cx.authorizeUrl provider raw (cx.pkceChallenge row.pkceVerifier) = some url
  | _, _ => True

theorem DrewRow.mono {cx : Context} {i : ℕ} {k : Request} {row : OAuthState} {raw : String}
    {own own' : List AppEvent} (h : DrewRow cx i k row raw own) (hsub : own ⊆ own') :
    DrewRow cx i k row raw own' := by
  obtain ⟨b₁, b₂, h₁, h₂, hrest⟩ := h
  exact ⟨b₁, b₂, hsub h₁, hsub h₂, hrest⟩

theorem flowDrawn_of_effect {cx : Context} {q : Statement} (h : q.effect ≠ .insertState) (i : ℕ)
    (k : Request) (b : Server) (own : List AppEvent) : FlowDrawn cx (.ran i k q b) own := by
  unfold FlowDrawn
  split
  next heq =>
    obtain ⟨-, -, rfl, -⟩ := Event.ran.inj heq
    exact absurd rfl h
  next heq => cases heq
  next => trivial

section Traces

variable {cx : Context} {i : ℕ} {k : Request} {provider : Provider}

/-- A start draws both values, stores them and builds the address from them. -/
theorem traced_flowDrawn (hstarts : k.starts = some provider) (userId : Option Uuid) (path : String)
    {own : List AppEvent} {Q : String → List AppEvent → Prop}
    {E : AppError → List AppEvent → Prop} (hE : ∀ e own, E e own)
    (hQ : ∀ url own' row raw b, .ran i k (.sql (.oauthStates (.insert row))) b ∈ own' →
      row.provider = provider → DrewRow cx i k row raw own' →
        cx.authorizeUrl provider raw (cx.pkceChallenge row.pkceVerifier) = some url → Q url own') :
    Traced (machine cx) (FlowDrawn cx) i k (OAuthService.start cx provider userId path) Q E
      own := by
  have quiet (q : Statement) (hq : q.effect ≠ .insertState) (s : Server) (own : List AppEvent) :
      FlowDrawn cx (.ran i k q s) own := flowDrawn_of_effect hq i k s own
  apply traced_bind.mpr
  apply (traced_ensure ..).mpr
  refine ⟨fun _ ↦ ?_, fun _ ↦ hE _ _⟩
  apply traced_bind.mpr
  apply traced_bind.mpr
  refine (traced_ask _).mpr ⟨fun s₁ ↦ ⟨quiet _ (by simp) s₁ _, ?_⟩, by rintro _ ⟨⟩⟩
  apply traced_bind.mpr
  apply traced_bind.mpr
  refine (traced_ask _).mpr ⟨fun s₂ ↦ ⟨quiet _ (by simp) s₂ _, ?_⟩, by rintro _ ⟨⟩⟩
  apply traced_bind.mpr
  apply traced_clock
  refine fun s₃ ↦ ⟨quiet _ (by simp) s₃ _, ?_⟩
  apply traced_bind.mpr
  apply traced_bind.mpr
  apply traced_clock
  refine fun s₄ ↦ ⟨quiet _ (by simp) s₄ _, ?_⟩
  apply traced_bind.mpr
  apply traced_sql (fun s ↦ quiet _ (by simp) s _) _ (fun _ _ ↦ hE _ _) (hE _ _)
  intro s₅ _ _
  have hdrew (t : Time) (own' : List AppEvent)
      (hsub : [.ran i k .draw s₂, .ran i k .draw s₁] ⊆ own') :
      DrewRow cx i k ⟨cx.sha256 (cx.randomToken s₁.draws), provider, cx.randomToken s₂.draws,
        userId, path, s₃.now + stateTtl, t⟩ (cx.randomToken s₁.draws) own' :=
    ⟨s₁, s₂, hsub (by simp), hsub (by simp), rfl, rfl, rfl⟩
  apply traced_sql
  · exact fun s ↦ ⟨hstarts, _, hdrew s₄.now _ (by simp)⟩
  · intro s₆ _ _
    apply (traced_okOr ..).mpr
    refine ⟨fun url hurl ↦ ?_, fun _ ↦ hE _ _⟩
    exact hQ url _ _ _ s₆ List.mem_cons_self rfl (hdrew s₄.now _ (by simp)) hurl
  · exact fun _ _ ↦ hE _ _
  · exact hE _ _

theorem traces_flowDrawn (cx : Context) (k : Request) :
    Traces (machine cx) (FlowDrawn cx) k (handle cx) := by
  intro i
  have hE (e : AppError) (own : List AppEvent) : Delivers (FlowDrawn cx) i k (.error e) own :=
    fun _ ↦ trivial
  have started {provider : Provider} (hstarts : k.starts = some provider) {url : String}
      {own : List AppEvent} {row : OAuthState} {raw : String} {b : Server}
      (hran : .ran i k (.sql (.oauthStates (.insert row))) b ∈ own)
      (hprovider : row.provider = provider) (hdrew : DrewRow cx i k row raw own)
      (hurl : cx.authorizeUrl provider raw (cx.pkceChallenge row.pkceVerifier) = some url) :
      Delivers (FlowDrawn cx) i k (.ok (.authorizeUrl url)) own := by
    intro s provider' hprovider'
    obtain rfl : provider' = provider := Option.some.inj (hprovider'.symm.trans hstarts)
    exact ⟨row, raw, b, hran, hprovider, hdrew, hurl⟩
  cases k with
  | oauthLogin provider redirect =>
      apply traced_bind.mpr
      apply traced_flowDrawn rfl none _ hE
      intro url own row raw b hran hprovider hdrew hurl
      exact started rfl hran hprovider hdrew hurl
  | oauthLink caller provider =>
      apply traced_bind.mpr
      have hcaller : (sessionUser cx caller false).Only fun q ↦ q.effect = .none :=
        only_sessionUser (fun _ hq ↦ hq) caller false
      apply (traced_of_only (A := fun _ ↦ True) hcaller (returns_true _) _ trivial).mono
      · intro actor own _
        apply traced_bind.mpr
        apply traced_flowDrawn rfl (some actor.id) _ hE
        intro url own row raw b hran hprovider hdrew hurl
        exact started rfl hran hprovider hdrew hurl
      · exact fun e own _ ↦ hE e own
      · intro q hq s own _
        exact ⟨flowDrawn_of_effect (by simp [hq]) i _ s own, trivial⟩
  | _ =>
      apply Traces.of_only (S := fun q ↦ q.effect ≠ .insertState)
      · apply handle_only
        rintro q hq heffect
        rw [heffect] at hq
        simp [Request.effects] at hq
      · exact fun q hq i s own ↦ flowDrawn_of_effect hq i _ s own
      · intro i a s own
        cases a with
        | error e => trivial
        | ok response =>
            cases response with
            | authorizeUrl url =>
                intro provider hprovider
                cases hprovider
            | _ => trivial

end Traces

/-! ## All runs -/

/-- Different draws of the run become different challenges. -/
def Context.DistinctChallenges (cx : Context) (draws : ℕ) : Prop :=
  ∀ m n, m < draws → n < draws →
    cx.pkceChallenge (cx.randomToken m) = cx.pkceChallenge (cx.randomToken n) → m = n

section Runs

variable {cx : Context} {s : Server} {c : AppConfig}

theorem Reached.flowDrawn (hc : Reached cx s c) {later earlier : List AppEvent} {e : AppEvent}
    (hhist : c.world.history = later ++ e :: earlier) :
    FlowDrawn cx e (ownEvents e.tid earlier) :=
  Along.of_append (P := AlongOwn (FlowDrawn cx)) (hhist ▸ hc.traces fun k _ ↦ traces_flowDrawn cx k)

/-- The number of a draw is one of the run's. -/
theorem Reached.draw_lt (hc : Reached cx s c) {i : ℕ} {k : Request} {b : Server}
    (h : .ran i k .draw b ∈ c.world.history) : b.draws < c.world.store.draws := by
  obtain ⟨later, earlier, hhist⟩ := List.append_of_mem h
  exact Reachable.count_lt (d := drawing cx) hc hhist

/-- Two flows with one challenge are one request's. -/
theorem Reached.same_challenge (hc : Reached cx s c)
    (hdistinct : cx.DistinctChallenges c.world.store.draws) {i j : ℕ} {k k' : Request}
    {b b' : Server} (h : .ran i k .draw b ∈ c.world.history)
    (h' : .ran j k' .draw b' ∈ c.world.history)
    (hchallenge : cx.pkceChallenge (cx.randomToken b.draws) =
      cx.pkceChallenge (cx.randomToken b'.draws)) : i = j := by
  have hdraws : b.draws = b'.draws :=
    hdistinct _ _ (hc.draw_lt h) (hc.draw_lt h') hchallenge
  obtain ⟨later, earlier, hhist⟩ := List.append_of_mem h
  obtain ⟨later', earlier', hhist'⟩ := List.append_of_mem h'
  exact (Reachable.draw_unique (d := drawing cx) hc hhist hhist' hdraws).2

/-- A state that a callback finds was stored by a request of the run. -/
theorem Reached.stored_of_claimed (hc : Reached cx s c) {hash : String}
    (hnew : s.db.oauthStates.get? hash = none) {later earlier : List AppEvent} {e : AppEvent}
    (hhist : c.world.history = later ++ e :: earlier) {row : OAuthState}
    (hget : e.store.db.oauthStates.get? hash = some row) :
    ∃ j k b, .ran j k (.sql (.oauthStates (.insert row))) b ∈ c.world.history := by
  obtain ⟨c', hc', hworld⟩ := hc.past hhist
  obtain ⟨mid, rise, before, hbefore, hrise, -⟩ :=
    hc'.rises_of_live (fun s : Server ↦ s.db.oauthStates.get? hash = some row) (fun _ _ ↦ Iff.rfl)
      (by simp [hnew]) (by rw [hworld]; exact hget)
  have hsplit : earlier = mid ++ rise :: before :=
    (congrArg World.history hworld).symm.trans hbefore
  cases rise with
  | answered => exact hrise.elim
  | ran j k q b =>
      obtain rfl := insert_of_state_rises hrise
      exact ⟨j, k, b, by simp [hhist, hsplit]⟩

variable {env : Environment} {bindPort : ℕ} {config : OAuthConfig} {parseHost : HostParser}

/-- An address handed out is the client's for a state and a verifier that its request drew. -/
theorem Reached.drawn_of_authorizeUrl {client : ProviderClient}
    (hc : Reached (client.serve parseHost cx) s c) {later earlier : List AppEvent} {i : ℕ}
    {k : Request} {url : String} {b : Server}
    (hhist : c.world.history = later ++ .answered i k (.ok (.authorizeUrl url)) b :: earlier)
    {provider : Provider} (hstarts : k.starts = some provider) :
    ∃ row raw b', .ran i k (.sql (.oauthStates (.insert row))) b' ∈ earlier ∧
      row.provider = provider ∧ DrewRow cx i k row raw earlier ∧
      client.authorizeUrl parseHost provider raw (cx.pkceChallenge row.pkceVerifier) =
        .ok url := by
  obtain ⟨row, raw, b', hran, hprovider, hdrew, hurl⟩ := hc.flowDrawn hhist provider hstarts
  have hown : ownEvents i earlier ⊆ earlier := fun e he ↦ (mem_ownEvents.mp he).1
  obtain ⟨b₁, b₂, h₁, h₂, hdrawn⟩ := hdrew.mono hown
  exact ⟨row, raw, b', hown hran, hprovider, ⟨b₁, b₂, h₁, h₂, hdrawn⟩, eq_ok_of_toOption hurl⟩

/-- An address handed out is read by the provider's parser as its endpoint with exactly the
parameters of the flow, whose state and verifier are stored. -/
theorem authorize_urls_exact (hdoc : parseHost.Documented)
    (henv : OAuthConfig.fromEnv env bindPort = .ok config)
    (hc : Reached ((ProviderClient.new config).serve parseHost cx) s c)
    {later earlier : List AppEvent} {i : ℕ} {k : Request} {url : String} {b : Server}
    (hhist : c.world.history = later ++ .answered i k (.ok (.authorizeUrl url)) b :: earlier)
    {provider : Provider} (hstarts : k.starts = some provider) :
    ∃ settings host u row raw b', (ProviderClient.new config).settings provider = some settings ∧
      parseHost true provider.authorizeHost = some host ∧ Url.parse parseHost url = some u ∧
      u = { provider.endpoint host with query := u.query } ∧
      (∀ decoder, u.parameters decoder = (ProviderClient.new config).authorizePairs settings
        provider raw (cx.pkceChallenge row.pkceVerifier)) ∧
      .ran i k (.sql (.oauthStates (.insert row))) b' ∈ earlier ∧ row.provider = provider ∧
      DrewRow cx i k row raw earlier := by
  obtain ⟨row, raw, b', hran, hprovider, hdrew, hmade⟩ := hc.drawn_of_authorizeUrl hhist hstarts
  obtain ⟨settings, host, hsettings, hhost, hparse⟩ := parse_of_authorizeUrl hdoc henv hmade
  obtain ⟨query, hquery⟩ := (provider.endpoint host).appendPairs_eq
    ((ProviderClient.new config).authorizePairs settings provider raw
      (cx.pkceChallenge row.pkceVerifier))
  refine ⟨settings, host, _, row, raw, b', hsettings, hhost, hparse, ?_, ?_, hran, hprovider,
    hdrew⟩
  · rw [hquery]
  · intro decoder
    rw [Url.parameters_appendPairs]
    rfl

/-- The challenge that an address carries is the challenge of a verifier that the request which
handed it out drew. -/
theorem Reached.challenge_of_address (hdoc : parseHost.Documented)
    (henv : OAuthConfig.fromEnv env bindPort = .ok config)
    (hc : Reached ((ProviderClient.new config).serve parseHost cx) s c) {i : ℕ} {k : Request}
    {url : String} {b : Server}
    (h : .answered i k (.ok (.authorizeUrl url)) b ∈ c.world.history)
    (hstarts : k.starts.isSome = true) {u : Url} (hparse : Url.parse parseHost url = some u)
    (decoder : Utf8Decoder) :
    ∃ b', .ran i k .draw b' ∈ c.world.history ∧
      valueOf (u.parameters decoder) "code_challenge" =
        some (cx.pkceChallenge (cx.randomToken b'.draws)) := by
  obtain ⟨provider, hstarts⟩ := Option.isSome_iff_exists.mp hstarts
  obtain ⟨later, earlier, hhist⟩ := List.append_of_mem h
  obtain ⟨row, raw, -, -, -, hdrew, hmade⟩ := hc.drawn_of_authorizeUrl hhist hstarts
  obtain ⟨-, b', -, hdraw, -, -, hverifier⟩ := hdrew
  obtain ⟨settings, host, -, -, hread⟩ := parse_of_authorizeUrl hdoc henv hmade
  obtain rfl := Option.some.inj (hparse.symm.trans hread)
  refine ⟨b', ?_, ?_⟩
  · rw [hhist]
    exact List.mem_append_right _ (List.mem_cons_of_mem _ hdraw)
  · rw [Url.parameters_appendPairs, ← hverifier]
    rfl

/-- A state that a callback finds is of a flow of the run, and no other request was handed an
address with its challenge. -/
theorem Reached.flow_of_claimed (hdoc : parseHost.Documented)
    (henv : OAuthConfig.fromEnv env bindPort = .ok config)
    (hc : Reached ((ProviderClient.new config).serve parseHost cx) s c)
    (hdistinct : cx.DistinctChallenges c.world.store.draws) {hash : String}
    (hnew : s.db.oauthStates.get? hash = none) {e : AppEvent} (he : e ∈ c.world.history)
    {row : OAuthState} (hget : e.store.db.oauthStates.get? hash = some row) :
    ∃ j k b, .ran j k (.sql (.oauthStates (.insert row))) b ∈ c.world.history ∧
      k.starts = some row.provider ∧
      ∀ j' k' url b' u decoder, .answered j' k' (.ok (.authorizeUrl url)) b' ∈ c.world.history →
        k'.starts.isSome = true → Url.parse parseHost url = some u →
          valueOf (u.parameters decoder) "code_challenge" =
            some (cx.pkceChallenge row.pkceVerifier) → j' = j := by
  obtain ⟨newer, older, hsplit⟩ := List.append_of_mem he
  obtain ⟨j, k, b, hinsert⟩ := hc.stored_of_claimed hnew hsplit hget
  obtain ⟨newer', older', hsplit'⟩ := List.append_of_mem hinsert
  obtain ⟨hstarts, -, -, b₂, -, hdraw, -, -, hverifier⟩ := hc.flowDrawn hsplit'
  have hdrawn : .ran j k .draw b₂ ∈ c.world.history := by
    rw [hsplit']
    exact List.mem_append_right _ (List.mem_cons_of_mem _ (mem_ownEvents.mp hdraw).1)
  refine ⟨j, k, b, hinsert, hstarts, ?_⟩
  intro j' k' url b' u decoder hanswered hsome hparse hchallenge
  obtain ⟨b₃, hdrawn', hcarried⟩ :=
    hc.challenge_of_address hdoc henv hanswered hsome hparse decoder
  rw [hchallenge, hverifier] at hcarried
  exact hc.same_challenge hdistinct hdrawn' hdrawn (Option.some.inj hcarried).symm

/-- The provider whose flow the request starts. -/
def Incoming.starts : Incoming → Option Provider
  | callback .. => none
  | other k => k.starts

theorem Incoming.starts_request (answer : Option ProviderProfile) (k : Incoming) :
    (k.request answer).starts = k.starts := by
  cases k <;> rfl

/-- A callback that completes came with a code given out for the challenge of the flow whose
state it presents, and for no other address that was handed out. -/
theorem codes_bound (hdoc : parseHost.Documented)
    (henv : OAuthConfig.fromEnv env bindPort = .ok config) {decoder : Utf8Decoder}
    {granted : Provider → Authorization → Prop} {c : IncomingConfig}
    (hc : Connected ((ProviderClient.new config).serve parseHost cx) (.new config)
      ((ProviderClient.new config).Checked decoder cx.pkceChallenge granted) s c)
    (hdistinct : cx.DistinctChallenges c.world.store.draws) {later earlier : List IncomingEvent}
    {i : ℕ} {provider : Provider} {query : CallbackQuery} {network : Network}
    {outcome : CallbackOutcome} {b : Server}
    (hhist : c.world.history = later ++ .answered i (.callback provider query network)
      (.ok (.callback outcome)) b :: earlier) (hcompletes : outcome.completes = true)
    {raw : String} (hstate : query.state = some raw)
    (hnew : s.db.oauthStates.get? (cx.sha256 raw) = none) :
    ∃ settings a j k row b', (ProviderClient.new config).settings provider = some settings ∧
      granted provider a ∧ query.code = some a.code ∧
      .ran j k (.sql (.oauthStates (.insert row))) b' ∈ c.world.history ∧
      k.starts = some provider ∧ row.stateHash = cx.sha256 raw ∧
      valueOf a.parameters "client_id" = some settings.clientId ∧
      valueOf a.parameters "redirect_uri" =
        some ((ProviderClient.new config).redirectUri provider) ∧
      valueOf a.parameters "code_challenge" = some (cx.pkceChallenge row.pkceVerifier) ∧
      ∀ j' k' url b'' u, .answered j' k' (.ok (.authorizeUrl url)) b'' ∈ c.world.history →
        k'.starts.isSome = true → Url.parse parseHost url = some u →
          u.parameters decoder = a.parameters → j' = j := by
  let served : Context := (ProviderClient.new config).serve parseHost cx
  obtain ⟨told, c', hc', hworld, htold⟩ := hc.reached
  have hhistory : c'.world.history =
      c.world.history.map (Event.relabel fun i k ↦ k.request (told i)) :=
    congrArg World.history hworld
  have hclaimed : CompletesClaimed served (.answered i (.oauthCallback provider query (told i))
      (.ok (.callback outcome)) b)
      (ownEvents i (earlier.map (Event.relabel fun i k ↦ k.request (told i)))) := by
    have hall := hc'.traces fun k _ ↦ traces_completesClaimed served k
    rw [hworld, World.relabel_split hhist] at hall
    exact Along.of_append (P := AlongOwn (CompletesClaimed served)) hall
  obtain ⟨-, hcode, hanswer, raw', b₁, row, hraw', hclaim, hget, -, hprovider⟩ :=
    hclaimed hcompletes
  obtain rfl : raw = raw' := Option.some.inj (hstate.symm.trans hraw')
  -- the profile was had for the code and the verifier of the row
  have hanswered : .answered i (.callback provider query network) (.ok (.callback outcome)) b ∈
      c.world.history := by simp [hhist]
  have hsub : earlier ⊆ c.world.history := by
    rw [hhist]
    exact fun e he ↦ List.mem_append_right _ (List.mem_cons_of_mem _ he)
  obtain ⟨network', hchecked, hran, htells⟩ :=
    hc.claim_mem htold hsub (mem_ownEvents.mp hclaim).1
  obtain ⟨-, -, rfl⟩ : provider = provider ∧ query = query ∧ network = network' :=
    Incoming.callback.inj (hc.request_eq hanswered (hsub hran) rfl)
  obtain ⟨code, hcode⟩ := Option.isSome_iff_exists.mp hcode
  obtain ⟨profile, hprofile⟩ := Option.isSome_iff_exists.mp hanswer
  have hok : (ProviderClient.new config).profile network provider code row.pkceVerifier =
      .ok profile := eq_ok_of_toOption ((htells code row hcode hget).symm.trans hprofile)
  obtain ⟨settings, a, hsettings, ha, rfl, hclient, hredirect, hchallenge⟩ :=
    authorization_of_profile hchecked hok
  -- and the row came from a flow of the run, which drew its verifier
  have hran' : .ran i (.oauthCallback provider query (told i))
      (.sql (.oauthStates (.claim (cx.sha256 raw)))) b₁ ∈ c'.world.history := by
    rw [hhistory]
    exact Event.ran_mem_relabel.mpr ⟨_, hsub hran, rfl⟩
  obtain ⟨j, k, b', hinsert, hstarts, honly⟩ :=
    hc'.flow_of_claimed hdoc henv (hworld ▸ hdistinct) hnew hran' hget
  rw [hhistory] at hinsert
  obtain ⟨k, hinserted, rfl⟩ := Event.ran_mem_relabel.mp hinsert
  rw [Incoming.starts_request, hprovider] at hstarts
  refine ⟨settings, a, j, k, row, b', hsettings, ha, hcode, hinserted, hstarts,
    Table.key_of_get? hget, hclient, hredirect, hchallenge, ?_⟩
  intro j' k' url b'' u hanswered' hsome hparse hparams
  apply honly j' (k'.request (told j')) url b'' u decoder
  · rw [hhistory]
    exact Event.answered_mem_relabel (f := fun i k ↦ k.request (told i)) hanswered'
  · rw [Incoming.starts_request]
    exact hsome
  · exact hparse
  · rw [hparams]
    exact hchallenge

end Runs

deriving instance DecidableEq for ProviderProfile

namespace ProviderSample

open Sample

/-- Google is set up, GitHub is not. -/
def env : Environment
  | "GOOGLE_CLIENT_ID" => some "app"
  | "GOOGLE_CLIENT_SECRET" => some "shared"
  | _ => none

def config : OAuthConfig := ⟨"http://localhost:8080", some (.google "app" "shared"), none⟩

theorem fromEnv_eq : OAuthConfig.fromEnv env 8080 = .ok config := by rfl

def client : ProviderClient := .new config

def parseHost : HostParser := fun _ text ↦
  if text = "accounts.google.com" then some text else none

theorem documented : HostParser.Documented parseHost := by
  intro text host h
  unfold parseHost at h
  split at h
  next heq =>
    obtain rfl := Option.some.inj h
    obtain rfl := heq
    have hchars : ∀ c ∈ "accounts.google.com".toList, isHostChar c = true :=
      List.all_iff_forall_prop.mp (by decide)
    exact ⟨by decide, .name hchars, rfl⟩
  next => cases h

def cx : Context := client.serve parseHost .sample

def state : String := cx.randomToken 0

def verifier : String := cx.randomToken 1

/-- Google gave the code to the browser that Ada's flow sent there. -/
def authorization : Authorization :=
  ⟨"code", client.authorizePairs (.google "app" "shared") .google state
    (cx.pkceChallenge verifier)⟩

def profile : ProviderProfile := ⟨"sub-1", some "ada@example.com", true, none⟩

/-- The values of the form that are compared with those of the authorization. -/
def Matches (form : List Char) : Prop :=
  formValue .strict form "code" = some authorization.code ∧
    formValue .strict form "client_id" = valueOf authorization.parameters "client_id" ∧
    formValue .strict form "redirect_uri" = valueOf authorization.parameters "redirect_uri" ∧
    (formValue .strict form "code_verifier").map cx.pkceChallenge =
      valueOf authorization.parameters "code_challenge"

instance (form : List Char) : Decidable (Matches form) :=
  inferInstanceAs (Decidable (_ ∧ _ ∧ _ ∧ _))

/-- Google's endpoints: one that trades the code, and one with Ada's profile. -/
def network : Network
  | .post _ form =>
      if Matches form then .ok ⟨200, "200 OK", .ok (.object [("access_token", .string "access")])⟩
      else .ok ⟨400, "400 Bad Request", .ok (.object [("error", .string "invalid_grant")])⟩
  | .get _ _ => .ok ⟨200, "200 OK", .ok (.object [("sub", .string "sub-1"),
      ("email", .string "ada@example.com"), ("email_verified", .bool true)])⟩

theorem grantsChecked (tokenUrl : String) :
    GrantsChecked .strict cx.pkceChallenge (· = authorization) tokenUrl network := by
  intro form response hsent hgrants
  unfold network at hsent
  dsimp only at hsent
  split at hsent
  next hmatches => exact ⟨authorization, rfl, hmatches⟩
  next =>
    obtain rfl := Except.ok.inj hsent
    exact absurd hgrants.1 (by decide)

theorem ok_bind {ε α β : Type} (a : α) (f : α → Except ε β) : (Except.ok a >>= f) = f a := rfl

theorem profile_eq : client.profile network .google "code" verifier = .ok profile := by
  have hmatches : Matches (formSerialize
      (client.exchangePairs (.google "app" "shared") .google "code" verifier)) := by
    unfold Matches formValue
    rw [formParse_formSerialize]
    exact ⟨rfl, rfl, rfl, rfl⟩
  have hsent : network (.post (OAuthProviderConfig.google "app" "shared").tokenUrl
      (formSerialize (client.exchangePairs (.google "app" "shared") .google "code" verifier))) =
        .ok ⟨200, "200 OK", .ok (.object [("access_token", .string "access")])⟩ := by
    simp only [network, if_pos hmatches]
  have hrequire : client.require .google = .ok (.google "app" "shared") := rfl
  have htoken : client.exchangeCode network .google "code" verifier = .ok "access" := by
    simp only [ProviderClient.exchangeCode, hrequire, ok_bind, hsent]
    rfl
  rw [ProviderClient.profile, htoken]
  rfl

def schedule : List (Action Request ℕ) :=
  alone 0 (.oauthLogin .google none) 6 ++
    alone 1 (.oauthCallback .google ⟨some "code", some state, none⟩ (some profile)) 12

/-- A callback comes with the profile that the network has for the verifier. -/
def asksHere : AppEvent → Bool
  | .ran _ (.oauthCallback provider query answer) (.sql (.oauthStates (.claim hash))) b =>
      decide (provider = .google) && decide (query.code = some "code") &&
        decide (answer = some profile) &&
          (b.db.oauthStates.get? hash).all fun row ↦ decide (row.pkceVerifier = verifier)
  | _ => true

def completesHere : AppEvent → Bool
  | .answered _ (.oauthCallback provider query _) (.ok (.callback outcome)) _ =>
      decide (provider = .google) && decide (query.state = some state) && outcome.completes
  | _ => false

theorem tells {i : ℕ} {provider : Provider} {query : CallbackQuery}
    {answer : Option ProviderProfile} {q : Statement} {b : Server}
    (h : asksHere (.ran i (.oauthCallback provider query answer) q b) = true) :
    TellsCallback client network provider query answer q b := by
  unfold TellsCallback
  split
  next hash =>
    simp only [asksHere, Bool.and_eq_true, decide_eq_true_eq, Option.all_eq_true] at h
    obtain ⟨⟨⟨rfl, hcode⟩, rfl⟩, hverifier⟩ := h
    intro code row hcode' hget
    obtain rfl := Option.some.inj (hcode.symm.trans hcode')
    rw [hverifier row hget, profile_eq]
    rfl
  next => trivial

/-- Google gave out the one code. -/
def granted (provider : Provider) (a : Authorization) : Prop :=
  provider = .google ∧ a = authorization

theorem checked (provider : Provider) :
    client.Checked .strict cx.pkceChallenge granted provider network := by
  intro settings hsettings form response hsent hgrants
  cases provider with
  | google =>
      obtain ⟨a, rfl, hvalues⟩ := grantsChecked _ form response hsent hgrants
      exact ⟨authorization, ⟨rfl, rfl⟩, hvalues⟩
  | github => cases hsettings

/-- An address is handed out to a request that starts a flow with Google. -/
def startsHere : AppEvent → Bool
  | .answered _ k (.ok (.authorizeUrl _)) _ => decide (k.starts = some .google)
  | _ => false

theorem distinct : cx.DistinctChallenges 4 := by
  have hall : ∀ m < 4, ∀ n < 4, cx.pkceChallenge (cx.randomToken m) =
      cx.pkceChallenge (cx.randomToken n) → m = n := by decide
  exact fun m n hm hn ↦ hall m hm n hn

end ProviderSample

theorem authorize_urls_exact_google :
    ∃ c, Reached ProviderSample.cx (Sample.server .empty) c ∧ ∃ e ∈ c.world.history,
      ∃ i k url b u raw challenge, e = .answered i k (.ok (.authorizeUrl url)) b ∧
        Url.parse ProviderSample.parseHost url = some u ∧ u.host = some "accounts.google.com" ∧
        u.parameters .strict = ProviderSample.client.authorizePairs (.google "app" "shared")
          .google raw challenge := by
  let test : AppConfig → Bool := fun c ↦ c.world.history.any ProviderSample.startsHere
  obtain ⟨c, hc, htest⟩ : ∃ c, Reached ProviderSample.cx (Sample.server .empty) c ∧
      test c = true :=
    Reachable.of_schedule ProviderSample.schedule test (by decide) (by decide)
  obtain ⟨e, he, hstarts⟩ := List.any_eq_true.mp htest
  refine ⟨c, hc, e, he, ?_⟩
  obtain ⟨later, earlier, hhist⟩ := List.append_of_mem he
  unfold ProviderSample.startsHere at hstarts
  split at hstarts
  next i k url b =>
    obtain ⟨settings, host, u, row, raw, -, hsettings, hhost, hparse, hu, hparams, -⟩ :=
      authorize_urls_exact ProviderSample.documented ProviderSample.fromEnv_eq hc hhist
        (of_decide_eq_true hstarts)
    obtain rfl := Option.some.inj hsettings
    obtain rfl := Option.some.inj hhost
    exact ⟨i, k, url, b, u, raw, _, rfl, hparse, hu ▸ rfl, hparams .strict⟩
  next => cases hstarts

theorem codes_bound_google :
    ∃ c, Connected ProviderSample.cx ProviderSample.client
        (ProviderSample.client.Checked .strict ProviderSample.cx.pkceChallenge
          ProviderSample.granted) (Sample.server .empty) c ∧
      ∃ e ∈ c.world.history, ∃ i k outcome b, ∃ row : OAuthState,
        e = .answered i k (.ok (.callback outcome)) b ∧
        row.stateHash = ProviderSample.cx.sha256 ProviderSample.state ∧
        valueOf ProviderSample.authorization.parameters "code_challenge" =
          some (ProviderSample.cx.pkceChallenge row.pkceVerifier) := by
  let test : AppConfig → Bool := fun c ↦ decide (c.world.store.draws = 4) &&
    c.world.history.any ProviderSample.completesHere && c.world.history.all ProviderSample.asksHere
  obtain ⟨c₀, hc₀, htest⟩ : ∃ c, Reached ProviderSample.cx (Sample.server .empty) c ∧
      test c = true :=
    Reachable.of_schedule ProviderSample.schedule test (by decide) (by decide)
  simp only [test, Bool.and_eq_true, decide_eq_true_eq, List.any_eq_true, List.all_eq_true] at htest
  obtain ⟨⟨hdraws, e, he, hdone⟩, hall⟩ := htest
  obtain ⟨c, hc, hworld⟩ := hc₀.connected ProviderSample.network ProviderSample.checked
    fun _ _ _ _ _ _ hran ↦ ProviderSample.tells (hall _ hran)
  have hstore : c.world.store.draws = 4 := by
    rw [hworld]
    exact hdraws
  unfold ProviderSample.completesHere at hdone
  split at hdone
  next i provider query answer outcome b =>
    simp only [Bool.and_eq_true, decide_eq_true_eq] at hdone
    obtain ⟨⟨rfl, hstate⟩, hcompletes⟩ := hdone
    have hmem : .answered i (.callback .google query ProviderSample.network)
        (.ok (.callback outcome)) b ∈ c.world.history := by
      rw [hworld]
      exact Event.answered_mem_relabel (f := fun _ k ↦ Incoming.asking ProviderSample.network k) he
    obtain ⟨later, earlier, hhist⟩ := List.append_of_mem hmem
    obtain ⟨-, a, -, -, row, -, -, ⟨-, rfl⟩, -, -, -, hhash, -, -, hchallenge, -⟩ :=
      codes_bound ProviderSample.documented ProviderSample.fromEnv_eq hc
        (hstore ▸ ProviderSample.distinct) hhist hcompletes hstate rfl
    exact ⟨c, hc, _, hmem, i, _, outcome, b, row, rfl, hhash, hchallenge⟩
  next => cases hdone

end ApiStarter
