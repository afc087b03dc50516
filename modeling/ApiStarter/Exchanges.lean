import ApiStarter.Browsers
import ApiStarter.Interleave.Prophecy
import ApiStarter.Services.ProviderClient

/-!
# What a callback asks its provider

A callback trades its code with the verifier that is stored with its state, and
asks for the profile with the token it gets.  Elsewhere a callback comes with
what it will be told in the end; here it comes with the network that it asks,
and the two have the same runs.
-/

namespace ApiStarter

open Interleave Interleave.Prog Relational

/-- The two calls of a callback, made over the network. -/
def ProviderClient.calls (client : ProviderClient) (network : Network) (provider : Provider) :
    ProviderCalls where
  exchangeCode code codeVerifier :=
    (client.exchangeCode network provider code codeVerifier).toOption
  fetchProfile accessToken := (client.fetchProfile network provider accessToken).toOption

/-- A request as it comes in, a callback with the network that its handler asks. -/
inductive Incoming
  | callback (provider : Provider) (query : CallbackQuery) (network : Network)
  | other (k : Request)

def handleIncoming (cx : Context) (client : ProviderClient) : Incoming → Req Response
  | .callback provider query network => do
      let outcome ← OAuthService.handleCallback cx provider query (client.calls network provider)
      pure (.callback outcome)
  | .other k => handle cx k

abbrev IncomingEvent := Event Statement Server Incoming AppError Response
abbrev IncomingConfig := Config Statement.Res Server Incoming AppError Response

namespace Incoming

/-- Every callback comes with its network, which conforms. -/
def Conforms (conforms : Provider → Network → Prop) : Incoming → Prop
  | callback provider _ network => conforms provider network
  | other (.oauthCallback ..) => False
  | other _ => True

/-- The request, a callback with what it is told. -/
def request (answer : Option ProviderProfile) : Incoming → Request
  | callback provider query _ => .oauthCallback provider query answer
  | other k => k

/-- The request, a callback with the network it asks. -/
def asking (network : Network) : Request → Incoming
  | .oauthCallback provider query _ => callback provider query network
  | k => other k

end Incoming

/-- Configurations that any requests in flight reach from `s`, the callbacks asking networks that
conform. -/
abbrev Connected (cx : Context) (client : ProviderClient)
    (conforms : Provider → Network → Prop) (s : Server) (c : IncomingConfig) : Prop :=
  Reachable (machine cx) (handleIncoming cx client) (Incoming.Conforms conforms) s c

/-- A callback that claims its state on this store is told `answer` in the end. -/
def TellsCallback (client : ProviderClient) (network : Network) (provider : Provider)
    (query : CallbackQuery) (answer : Option ProviderProfile) : Statement → Server → Prop
  | .sql (.oauthStates (.claim hash)), s => ∀ code row, query.code = some code →
      s.db.oauthStates.get? hash = some row →
        answer = (client.profile network provider code row.pkceVerifier).toOption
  | _, _ => True

/-- A callback that does so is told `answer`. -/
def Incoming.Told (client : ProviderClient) (answer : Option ProviderProfile) :
    Incoming → Statement → Server → Prop
  | callback provider query network, q, s => TellsCallback client network provider query answer q s
  | other _, _, _ => True

/-! ## One request -/

section Callback

variable {cx : Context} {client : ProviderClient} {network : Network} {provider : Provider}
  {query : CallbackQuery} {answer : Option ProviderProfile}

/-- The two calls fail, or end with the profile that is told, in the same way. -/
theorem calls_eq {code verifier : String} {α : Type}
    (h : answer = (client.profile network provider code verifier).toOption)
    (f : ProviderProfile → OAuthService.Callback α) :
    (okOr "provider_error" ((client.calls network provider).exchangeCode code verifier) >>=
      fun token ↦ okOr "provider_error" ((client.calls network provider).fetchProfile token) >>=
        f) = okOr "provider_error" answer >>= f := by
  subst h
  cases hexchange : client.exchangeCode network provider code verifier with
  | error e =>
      simp only [ProviderClient.calls, ProviderClient.profile, hexchange]
      rfl
  | ok token =>
      simp only [ProviderClient.calls, ProviderClient.profile, hexchange]
      rfl

/-- A statement with one rest or another, which agree on the answers it can have. -/
theorem asGuessed_sql {q : Sql} {ok : Statement → Server → Prop} {α : Type} {reason : String}
    {f f' : q.Res → OAuthService.Callback α}
    (h : ∀ s r, ok (.sql q) s → (q.run s.now s.db).1 = some r → f r = f' r) :
    (mapErr (fun _ ↦ reason) (sql q) >>= f).AsGuessed (machine cx) ok
      (mapErr (fun _ ↦ reason) (sql q) >>= f') := by
  have hrest : ∀ r : Option q.Res, (∀ a, r = some a → f a = f' a) →
      (mapErr (fun _ ↦ reason) (okOr AppError.database r : Req q.Res) >>= f) =
        mapErr (fun _ ↦ reason) (okOr AppError.database r : Req q.Res) >>= f' := by
    intro r hr
    cases r with
    | none => rfl
    | some a => exact hr a rfl
  refine ⟨_, rfl, fun s hs ↦ ?_, fun r hr ↦ ?_⟩
  · exact .of_eq (hrest _ fun a ha ↦ h s a hs ha)
  · obtain rfl := Option.some.inj hr
    exact .of_eq (hrest none (by rintro _ ⟨⟩))

/-- Where its claim finds what the provider's answer was for, a callback asks as it is told. -/
theorem asGuessed_callback :
    (handleIncoming cx client (.callback provider query network)).AsGuessed (machine cx)
      (TellsCallback client network provider query answer)
      (handle cx (.oauthCallback provider query answer)) := by
  have hcallback : (OAuthService.callback cx provider query
      (client.calls network provider)).AsGuessed (machine cx)
        (TellsCallback client network provider query answer)
        (OAuthService.callback cx provider query (.answering answer)) := by
    cases hstate : query.state with
    | none =>
        unfold OAuthService.callback
        rw [hstate]
        exact .refl _
    | some raw =>
        unfold OAuthService.callback
        rw [hstate]
        apply asGuessed_sql
        intro s claimed htells hclaimed
        cases claimed with
        | none => rfl
        | some row =>
            obtain ⟨hget, -, -⟩ := OAuthStateSql.claim_eq_some hclaimed
            cases hcode : query.code with
            | none => rfl
            | some code =>
                have hcalls := calls_eq (htells code row hcode hget) fun profile ↦
                  OAuthService.resolve cx provider profile row.userId row.redirectPath
                simp only [okOr_some, ret_bind, hcalls]
                rfl
  exact (hcallback.bindBoth fun _ ↦ .refl _).bind (fun _ ↦ .refl _) |>.bind fun _ ↦ .refl _

theorem asGuessed_handleIncoming (told : Option ProviderProfile) (k : Incoming) :
    (handleIncoming cx client k).AsGuessed (machine cx) (k.Told client told)
      (handle cx (k.request told)) := by
  cases k with
  | callback provider query network => exact asGuessed_callback
  | other k => exact .refl _

end Callback

/-- The state of a callback is claimed before anything else. -/
def ClaimsFirst : IncomingEvent → List IncomingEvent → Prop
  | .ran _ (.callback ..) (.sql (.oauthStates (.claim _))) _, own => own = []
  | _, _ => True

theorem claimsFirst_of_effect {q : Statement} (h : q.effect ≠ .claimState) (i : ℕ)
    (k : Incoming) (s : Server) (own : List IncomingEvent) : ClaimsFirst (.ran i k q s) own := by
  unfold ClaimsFirst
  split
  next heq =>
    obtain ⟨-, -, rfl, -⟩ := Event.ran.inj heq
    exact absurd rfl h
  next => trivial

theorem traces_claimsFirst (cx : Context) (client : ProviderClient) (k : Incoming) :
    Traces (machine cx) ClaimsFirst k (handleIncoming cx client) := by
  cases k with
  | other k =>
      exact .of_only (S := fun _ ↦ True) (only_true _) (fun _ _ _ _ _ ↦ trivial)
        fun _ _ _ _ ↦ trivial
  | callback provider query network =>
      intro i
      have hE (reason : String) (own : List IncomingEvent) : Delivers ClaimsFirst i
          (.callback provider query network) (.ok (.callback (.failed reason))) own :=
        fun _ ↦ trivial
      apply traced_bind.mpr
      apply traced_bind.mpr
      apply traced_bindBoth.mpr
      apply traced_bind.mpr
      apply (traced_okOr ..).mpr
      refine ⟨fun raw _ ↦ ?_, fun _ ↦ hE _ _⟩
      apply traced_bind.mpr
      apply traced_mapErr.mpr
      apply traced_sql (fun _ ↦ rfl) _ (fun _ _ ↦ hE _ _) (hE _ _)
      intro s claimed _
      apply (traced_of_only (A := fun _ ↦ True) (S := fun q ↦ q.effect ≠ .claimState) ?_
        (returns_true _) (fun q hq s own _ ↦ ⟨claimsFirst_of_effect hq i _ s own, trivial⟩)
        trivial).mono
      · exact fun outcome own _ _ ↦ trivial
      · exact fun reason own _ ↦ hE reason own
      · refine .bind (by simp) fun _ ↦ .bind (by simp) fun _ ↦ .bind (by simp) fun _ ↦ ?_
        refine .bind (by simp) fun _ ↦ .bind (by simp) fun _ ↦ .bind (by simp) fun _ ↦ ?_
        apply only_resolve
        · intro q hq heffect
          simp [heffect] at hq
        · intro email _ _ id name heffect
          cases heffect

/-! ## All runs -/

/-- What the provider tells the callback that does this first. -/
def toldAt (client : ProviderClient) : IncomingEvent → Option ProviderProfile
  | .ran _ (.callback provider query network) (.sql (.oauthStates (.claim hash))) b =>
      query.code.bind fun code ↦ (b.db.oauthStates.get? hash).bind fun row ↦
        (client.profile network provider code row.pkceVerifier).toOption
  | _ => none

section Runs

variable {cx : Context} {client : ProviderClient} {conforms : Provider → Network → Prop}
  {s : Server} {c : IncomingConfig}

/-- What a thread does first is its oldest event. -/
theorem getLast?_ownEvents {h later earlier : List IncomingEvent} {e : IncomingEvent}
    (hhist : h = later ++ e :: earlier) (hfirst : ownEvents e.tid earlier = []) :
    (ownEvents e.tid h).getLast? = some e := by
  have hown : ownEvents e.tid h = ownEvents e.tid later ++ [e] := by
    rw [hhist]
    simpa [ownEvents] using hfirst
  rw [hown, List.getLast?_concat]

/-- Callbacks that ask over networks run like callbacks that come with what they are told. -/
theorem Connected.reached (hc : Connected cx client conforms s c) :
    ∃ (told : ℕ → Option ProviderProfile) (c' : AppConfig), Reached cx s c' ∧
      c'.world = c.world.relabel (fun i k ↦ k.request (told i)) ∧
        ∀ i k q b, .ran i k q b ∈ c.world.history → k.Told client (told i) q b := by
  let told (i : ℕ) : Option ProviderProfile :=
    (ownEvents i c.world.history).getLast?.bind (toldAt client)
  have htold : ∀ i k q b, .ran i k q b ∈ c.world.history → k.Told client (told i) q b := by
    intro i k q b hran
    obtain ⟨later, earlier, hhist⟩ := List.append_of_mem hran
    have hfirst : ClaimsFirst (.ran i k q b) (ownEvents i earlier) :=
      Along.of_append (P := AlongOwn ClaimsFirst)
        (hhist ▸ hc.traces fun k _ ↦ traces_claimsFirst cx client k)
    cases k with
    | other k => trivial
    | callback provider query network =>
        change TellsCallback client network provider query (told i) q b
        unfold TellsCallback
        split
        next hash =>
          intro code row hcode hget
          have hlast := getLast?_ownEvents hhist hfirst
          simp only [Event.tid_ran] at hlast
          simp only [told, hlast, Option.bind_some, toldAt, hcode, hget]
        next => trivial
  obtain ⟨c', hc', hguessed⟩ : ∃ c', Reached cx s c' ∧ c.AsGuessed (machine cx)
      (fun i k ↦ k.Told client (told i)) (fun i k ↦ k.request (told i)) c' :=
    hc.as_guessed (fun i k _ ↦ asGuessed_handleIncoming (told i) k) (fun _ _ _ ↦ trivial) htold
  exact ⟨told, c', hc', hguessed.world, htold⟩

/-- What a callback that claims its state is told is what its network has for it. -/
theorem Connected.claim_mem (hc : Connected cx client conforms s c)
    {told : ℕ → Option ProviderProfile}
    (htold : ∀ i k q b, .ran i k q b ∈ c.world.history → k.Told client (told i) q b)
    {h : List IncomingEvent} (hsub : h ⊆ c.world.history) {i : ℕ} {provider : Provider}
    {query : CallbackQuery} {answer : Option ProviderProfile} {hash : String} {b : Server}
    (hclaim : .ran i (.oauthCallback provider query answer) (.sql (.oauthStates (.claim hash))) b ∈
      h.map (Event.relabel fun i k ↦ k.request (told i))) :
    ∃ network, conforms provider network ∧
      .ran i (.callback provider query network) (.sql (.oauthStates (.claim hash))) b ∈ h ∧
      ∀ code row, query.code = some code → b.db.oauthStates.get? hash = some row →
        answer = (client.profile network provider code row.pkceVerifier).toOption := by
  obtain ⟨k, hran, hk⟩ := Event.ran_mem_relabel.mp hclaim
  have hallowed : k.Conforms conforms ∧ True :=
    hc.ran_only (fun _ _ ↦ only_true _) _ _ _ _ (hsub hran)
  cases k with
  | callback provider' query' network =>
      obtain ⟨rfl, rfl, rfl⟩ := Request.oauthCallback.inj hk
      exact ⟨network, hallowed.1, hran, htold _ _ _ _ (hsub hran)⟩
  | other k =>
      obtain rfl : k = .oauthCallback provider query answer := hk
      exact hallowed.1.elim

/-- Callbacks that come with what the network has for them can as well ask it. -/
theorem Reached.connected {c : AppConfig} (hc : Reached cx s c) (network : Network)
    (hconforms : ∀ provider, conforms provider network)
    (htells : ∀ i provider query answer q b,
      .ran i (.oauthCallback provider query answer) q b ∈ c.world.history →
        TellsCallback client network provider query answer q b) :
    ∃ c', Connected cx client conforms s c' ∧
      c'.world = c.world.relabel fun _ k ↦ Incoming.asking network k := by
  let told : Request → Option ProviderProfile
    | .oauthCallback _ _ answer => answer
    | _ => none
  have hrequest (k : Request) : (Incoming.asking network k).request (told k) = k := by
    cases k <;> rfl
  have hguess : ∀ (i : ℕ) (k : Request), True → (handle cx k).AsGuessed (machine cx)
      ((Incoming.asking network k).Told client (told k))
      (handleIncoming cx client (Incoming.asking network k)) := by
    intro i k _
    apply Prog.AsGuessed.symm
    have hguessed : (handleIncoming cx client (Incoming.asking network k)).AsGuessed (machine cx)
        ((Incoming.asking network k).Told client (told k))
        (handle cx ((Incoming.asking network k).request (told k))) :=
      asGuessed_handleIncoming _ _
    rwa [hrequest] at hguessed
  have hallowed : ∀ (i : ℕ) (k : Request), True →
      (Incoming.asking network k).Conforms conforms := by
    intro i k _
    cases k with
    | oauthCallback provider query answer => exact hconforms provider
    | _ => trivial
  obtain ⟨c', hc', hguessed⟩ := hc.as_guessed hguess hallowed (by
    intro i k q b hran
    cases k with
    | oauthCallback provider query answer => exact htells i provider query answer q b hran
    | _ => trivial)
  exact ⟨c', hc', hguessed.world⟩

end Runs

end ApiStarter
