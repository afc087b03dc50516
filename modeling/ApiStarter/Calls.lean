import ApiStarter.Effects
import ApiStarter.Interleave.Guarded

/-!
# Walking through a handler

The weakest preconditions of what handlers are made of: a SQL statement, the
clock, the extractors.  A discipline is quiet for a request when the statements
without effect keep it, so that a walk only stops at the statements with one.
-/

namespace ApiStarter

open Interleave Interleave.Prog Relational

/-- An event of requests under any label. -/
abbrev LabelledEvent (κ : Type) := Event Statement Server κ AppError Response

abbrev AppEvent := LabelledEvent Request
abbrev AppWorld := World Statement Server Request AppError Response
abbrev AppConfig := Config Statement.Res Server Request AppError Response
abbrev AppDiscipline := Discipline Statement Server Request AppError Response
abbrev AppGuard := Guard Statement Server Request AppError Response

/-- Configurations the application reaches from `s` with any requests in flight. -/
abbrev Reached (cx : Context) (s : Server) (c : AppConfig) : Prop :=
  Reachable (machine cx) (handle cx) (fun _ ↦ True) s c

/-- Only the requests listed for an effect run statements that have it. -/
theorem Reached.effect_mem {cx : Context} {s : Server} {c : AppConfig} (hc : Reached cx s c)
    {i : ℕ} {k : Request} {q : Statement} {b : Server} (h : .ran i k q b ∈ c.world.history) :
    q.effect ∈ .none :: k.effects :=
  (hc.ran_only (S := fun k q ↦ q.effect ∈ .none :: k.effects)
    (fun k _ ↦ handle_only k fun _ hq ↦ hq) i k q b h).2

/-- Thread `i` reads the account `u`. -/
def readsAccount (i : ℕ) (u : Uuid) : AppEvent → Bool
  | .ran j _ (.sql (.users (.findById id))) _ => decide (j = i) && decide (id = u)
  | _ => false

theorem readsAccount_of_tid_ne {i : ℕ} {u : Uuid} {e : AppEvent} (h : e.tid ≠ i) :
    readsAccount i u e = false := by
  unfold readsAccount
  split
  · simp only [Event.tid_ran] at h
    simp [h]
  · rfl

/-- Statements without effect keep the discipline, whoever runs them. -/
def Quiet (cx : Context) (D : AppDiscipline) : Prop :=
  ∀ q : Statement, q.effect = .none →
    ∀ i k W, D.Inv W → D.Keeps W (W.ran (machine cx) i k q)

theorem quiet_along {cx : Context} {P : AppEvent → List AppEvent → Prop}
    (hP : ∀ q : Statement, q.effect = .none → ∀ i k b h, P (.ran i k q b) h) :
    Quiet cx (.along P) :=
  fun q hq i k _ hW ↦ Discipline.keeps_along_ran.mpr ⟨hP q hq i k _ _, hW⟩

section Walk

variable {cx : Context} {D : AppDiscipline} {i : ℕ} {k : Request} {W : AppWorld} {α ε : Type}

theorem find?_liveId_eq_some {users : Table User.id} {id : Uuid} {u : User}
    (h : users.find? (liveId id) = some u) :
    users.get? id = some u ∧ u.id = id ∧ u.isLive = true := by
  rw [find?_liveId] at h
  obtain ⟨hget, hlive⟩ := Option.filter_eq_some_iff.mp h
  exact ⟨hget, Table.key_of_get? hget, hlive⟩

section Steps

variable {E : ε → AppWorld → Prop} (hE : ∀ e W, D.Inv W → E e W)
include hE

theorem wp_check {c : Prop} [Decidable c] {e : ε} {Q : Unit → AppWorld → Prop} (hW : D.Inv W)
    (hnext : c → Q () W) : wp (machine cx) D i k (ensure c e) Q E W :=
  (wp_ensure ..).mpr ⟨hnext, fun _ ↦ hE _ _ hW⟩

theorem wp_unwrap {o : Option α} {e : ε} {Q : α → AppWorld → Prop} (hW : D.Inv W)
    (hnext : ∀ a, o = some a → Q a W) : wp (machine cx) D i k (okOr e o) Q E W :=
  (wp_okOr ..).mpr ⟨hnext, fun _ ↦ hE _ _ hW⟩

end Steps

section Statements

variable {E : AppError → AppWorld → Prop} (hE : ∀ e W, D.Inv W → E e W)
include hE

theorem wp_sql {q : Sql} {Q : q.Res → AppWorld → Prop}
    (hkeep : ∀ W', D.Evolves i W W' → D.Keeps W' (W'.ran (machine cx) i k (.sql q)))
    (hnext : ∀ W' r, D.Evolves i W W' → (q.run W'.store.now W'.store.db).1 = some r →
      D.Inv (W'.ran (machine cx) i k (.sql q)) → Q r (W'.ran (machine cx) i k (.sql q))) :
    @wp _ _ _ _ _ _ _ (no_index q.Res) _ (machine cx) D i k (sql q) Q E W := by
  refine wp_bind.mpr ((wp_ask _).mpr fun W' hW' ↦ ⟨⟨hkeep W' hW', ?_⟩, ?_⟩)
  · exact wp_unwrap hE (hkeep W' hW').1 fun r hr ↦ hnext W' r hW' hr (hkeep W' hW').1
  · intro r hr
    obtain rfl : none = r := Option.some.inj hr
    exact wp_unwrap hE hW'.inv (by simp)

/-- A statement without effect. -/
theorem wp_read (hquiet : Quiet cx D) {q : Sql} {Q : q.Res → AppWorld → Prop}
    (hq : q.effect = .none)
    (hnext : ∀ W' r, D.Evolves i W W' → (q.run W'.store.now W'.store.db).1 = some r →
      D.Inv (W'.ran (machine cx) i k (.sql q)) → Q r (W'.ran (machine cx) i k (.sql q))) :
    @wp _ _ _ _ _ _ _ (no_index q.Res) _ (machine cx) D i k (sql q) Q E W :=
  wp_sql hE (fun W' hW' ↦ hquiet (.sql q) hq i k W' hW'.inv) hnext

/-- Reading an account that has to pass a test. -/
theorem wp_findUser (hquiet : Quiet cx D) {id : Uuid} {e : AppError} {p : User → Bool}
    {Q : User → AppWorld → Prop}
    (hnext : ∀ W' u, D.Evolves i W W' → W'.store.db.users.get? id = some u → u.id = id →
      u.isLive = true → p u = true →
        D.Inv (W'.ran (machine cx) i k (.sql (.users (.findById id)))) →
        Q u (W'.ran (machine cx) i k (.sql (.users (.findById id))))) :
    wp (machine cx) D i k
      (do let found ← sql (.users (.findById id)); okOr e (found.filter p)) Q E W := by
  refine wp_bind.mpr (wp_read hE hquiet rfl fun W' found hW' hfound hInv ↦ ?_)
  refine wp_unwrap hE hInv fun u hu ↦ ?_
  obtain ⟨hfind, hp⟩ := Option.filter_eq_some_iff.mp hu
  obtain ⟨hget, hid, hlive⟩ := find?_liveId_eq_some ((Option.some.inj hfound).trans hfind)
  exact hnext W' u hW' hget hid hlive hp hInv

end Statements

theorem wp_clock {Q : Time → AppWorld → Prop} {E : ε → AppWorld → Prop} (hquiet : Quiet cx D)
    (hnext : ∀ W', D.Evolves i W W' → D.Inv (W'.ran (machine cx) i k .clock) →
      Q W'.store.now (W'.ran (machine cx) i k .clock)) :
    wp (machine cx) D i k clock Q E W := by
  refine (wp_ask _).mpr fun W' hW' ↦ ?_
  have hkeep := hquiet .clock rfl i k W' hW'.inv
  exact ⟨⟨hkeep, hnext W' hW' hkeep.1⟩, by rintro _ ⟨⟩⟩

/-- A part of a handler without effects, after which nothing local is remembered. -/
theorem wp_quiet {p : Prog Statement.Res ε α} {P : α → Prop} {Q : α → AppWorld → Prop}
    {E : ε → AppWorld → Prop} (hquiet : Quiet cx D) (hp : p.Only fun q ↦ q.effect = .none)
    (hP : p.Returns P) (hQ : ∀ a W, P a → D.Inv W → Q a W) (hE : ∀ e W, D.Inv W → E e W)
    (hW : D.Inv W) : wp (machine cx) D i k p Q E W :=
  wp_of_only hp hP (fun q hq W hW ↦ hquiet q hq i k W hW) hQ hE hW

theorem authUser_apiKey_returns (raw : String) (isSafe : Bool) :
    (authUser cx (.apiKey raw) isSafe).Returns fun user ↦ ∃ scope,
      user.credential = .apiKey scope := by
  refine Returns.bind (P := fun user : AuthUser ↦ ∃ scope, user.credential = .apiKey scope) ?_
    fun user huser ↦ returns_bind fun _ ↦ huser
  refine returns_bind fun now ↦ returns_bind fun _ ↦ returns_bind fun key ↦ ?_
  exact returns_bind fun _ ↦ returns_bind fun owner ↦ returns_bind fun _ ↦ ⟨key.scope, rfl⟩

theorem sessionUser_apiKey_returns (raw : String) (isSafe : Bool) :
    (sessionUser cx (.apiKey raw) isSafe).Returns fun _ ↦ False := by
  refine (authUser_apiKey_returns raw isSafe).bind fun user huser ↦ ?_
  refine (returns_ensure _ _).bind fun _ hsession ↦ ?_
  obtain ⟨scope, hscope⟩ := huser
  simp [hscope] at hsession

/-- A caller who passes as a session presented a token of the account acted for, which
was there and active at some moment on the way. -/
theorem wp_sessionUser {Q : AuthUser → AppWorld → Prop} {E : AppError → AppWorld → Prop}
    (hquiet : Quiet cx D) (hE : ∀ e W, D.Inv W → E e W) (hW : D.Inv W)
    {caller : Presented} {isSafe : Bool}
    (hQ : ∀ (claims : Claims) (W' : AppWorld) (u : User), caller = .bearer claims →
      W'.store.db.users.get? claims.sub = some u →
      u.isActive = true → u.tokenVersion = claims.tv →
      D.Inv (W'.ran (machine cx) i k (.sql (.users (.findById claims.sub)))) →
        Q ⟨claims.sub, u.role, .session⟩
          (W'.ran (machine cx) i k (.sql (.users (.findById claims.sub))))) :
    wp (machine cx) D i k (sessionUser cx caller isSafe) Q E W := by
  cases caller with
  | bearer claims =>
      refine wp_bind.mpr (wp_bind.mpr (wp_clock hquiet fun W₁ _ hInv ↦ ?_))
      refine wp_bind.mpr (wp_check hE hInv fun _ ↦ ?_)
      unfold verifySession
      rw [← Prog.bind_assoc]
      refine wp_bind.mpr (wp_findUser hE hquiet fun W₂ u _ hget hid _ hactive hInv ↦ ?_)
      refine wp_bind.mpr (wp_check hE hInv fun htv ↦ wp_bind.mpr (wp_check hE hInv fun _ ↦ ?_))
      rw [hid]
      exact hQ claims W₂ u rfl hget hactive htv hInv
  | apiKey raw =>
      refine wp_quiet hquiet (only_sessionUser (fun _ hq ↦ hq) _ _)
        (sessionUser_apiKey_returns raw isSafe) ?_ hE hW
      exact fun _ _ hfalse ↦ hfalse.elim

end Walk

/-! ## One account -/

/-- A property of the account's row. -/
def userIs (u : Uuid) (p : User → Prop) (s : Server) : Prop :=
  ∃ row, s.db.users.get? u = some row ∧ p row

theorem userIs_exec {cx : Context} {u : Uuid} {p : User → Prop}
    (hp : ∀ now users row (q : UsersSql), p row → p (q.onRow now users row)) (q : Statement)
    (s : Server) (h : userIs u p s) : userIs u p ((machine cx).exec q s).2 := by
  obtain ⟨row, hrow, hprow⟩ := h
  cases q with
  | sql q =>
      cases q with
      | users q => exact ⟨_, UsersSql.get?_run hrow q, hp _ _ _ _ hprow⟩
      | _ => exact ⟨row, hrow, hprow⟩
  | _ => exact ⟨row, hrow, hprow⟩

/-! ## One request alone -/

section Trace

variable {cx : Context} {i : ℕ} {α : Type}

section Labelled

variable {κ : Type} {k : κ} {own : List (LabelledEvent κ)}
  {P : LabelledEvent κ → List (LabelledEvent κ) → Prop}

/-- A SQL statement on a machine that runs it like the application's. -/
theorem traced_sql_on {M : Machine Statement.Res Server ℕ} {q : Sql}
    (hexec : ∀ s, (M.exec (.sql q) s).1 = (q.run s.now s.db).1)
    {Q : q.Res → List (LabelledEvent κ) → Prop} {E : AppError → List (LabelledEvent κ) → Prop}
    (hP : ∀ s, P (.ran i k (.sql q) s) own)
    (hnext : ∀ s r, (q.run s.now s.db).1 = some r → Q r (.ran i k (.sql q) s :: own))
    (hnone : ∀ s, (q.run s.now s.db).1 = none → E .database (.ran i k (.sql q) s :: own))
    (hfault : ∀ r ∈ M.fault (.sql q), r = none ∧ E .database own) :
    @Traced _ _ _ _ _ _ _ (no_index q.Res) _ M P i k (sql q) Q E own := by
  refine traced_bind.mpr ((traced_ask _).mpr ⟨fun s ↦ ⟨hP s, ?_⟩, ?_⟩)
  · rw [hexec]
    exact (traced_okOr ..).mpr ⟨fun r hr ↦ hnext s r hr, fun hr ↦ hnone s hr⟩
  · intro r hr
    obtain ⟨rfl, hlost⟩ := hfault r hr
    exact (traced_okOr ..).mpr ⟨by simp, fun _ ↦ hlost⟩

theorem traced_sql {q : Sql} {Q : q.Res → List (LabelledEvent κ) → Prop}
    {E : AppError → List (LabelledEvent κ) → Prop}
    (hP : ∀ s, P (.ran i k (.sql q) s) own)
    (hnext : ∀ s r, (q.run s.now s.db).1 = some r → Q r (.ran i k (.sql q) s :: own))
    (hnone : ∀ s, (q.run s.now s.db).1 = none → E .database (.ran i k (.sql q) s :: own))
    (hfault : E .database own) :
    @Traced _ _ _ _ _ _ _ (no_index q.Res) _ (machine cx) P i k (sql q) Q E own :=
  traced_sql_on (fun _ ↦ rfl) hP hnext hnone fun _ hr ↦ ⟨(Option.some.inj hr).symm, hfault⟩

theorem traced_clock {ε : Type} {Q : Time → List (LabelledEvent κ) → Prop}
    {E : ε → List (LabelledEvent κ) → Prop}
    (h : ∀ s, P (.ran i k .clock s) own ∧ Q s.now (.ran i k .clock s :: own)) :
    Traced (machine cx) P i k clock Q E own :=
  (traced_ask _).mpr ⟨h, by rintro _ ⟨⟩⟩

end Labelled

variable {P : AppEvent → List AppEvent → Prop} {k : Request} {own : List AppEvent}

/-- A SQL statement in a run under a guard. -/
theorem tracedIf_sql {C : AppEvent → List AppEvent → Prop} {F : List AppEvent → Prop} {q : Sql}
    {Q : q.Res → List AppEvent → Prop} {E : AppError → List AppEvent → Prop}
    (hran : ∀ s, C (.ran i k (.sql q) s) own → P (.ran i k (.sql q) s) own ∧
      (∀ r, (q.run s.now s.db).1 = some r → Q r (.ran i k (.sql q) s :: own)) ∧
        ((q.run s.now s.db).1 = none → E .database (.ran i k (.sql q) s :: own)))
    (hfault : F own → E .database own) :
    @TracedIf _ _ _ _ _ _ _ (no_index q.Res) _ (machine cx) C F P i k (sql q) Q E own := by
  refine tracedIf_bind.mpr ⟨fun s hs ↦ ?_, fun hF r hr ↦ ?_⟩
  · obtain ⟨hP, hnext⟩ := hran s hs
    exact ⟨hP, (tracedIf_okOr ..).mpr hnext⟩
  · obtain rfl := Option.some.inj hr
    exact (tracedIf_okOr ..).mpr ⟨nofun, fun _ ↦ hfault hF⟩

end Trace

/-! ## Servers and schedules to evaluate -/

namespace Sample

/-- An account signed up at the beginning with the password `correct-horse`. -/
def account (id : Uuid) (email : String) (role : Role) : User :=
  NewUser.row ⟨email, "argon2:correct-horse", none, role, true, true⟩ id 0

def server (users : Table User.id) : Server where
  db := { Db.empty with users := users }
  now := 0
  draws := 0
  mails := []

/-- A session of the account's first token version. -/
def bearer (id : Uuid) (role : Role) : Presented := .bearer ⟨id, role, 1, 0, 3600⟩

/-- Thread `i` serves `k` from start to answer, `n` statements with nothing in between. -/
def alone (i : ℕ) (k : Request) (n : ℕ) : List (Action Request ℕ) :=
  .start k :: List.replicate n (.run i) ++ [.answer i]

end Sample

end ApiStarter
