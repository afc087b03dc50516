import ApiStarter.Interleave.Fresh
import ApiStarter.Minters

/-!
# Secrets are made from fresh draws

Links, OAuth states, login grants, challenges, recovery codes and QR session ids
are all stored under a value computed from a random draw of the same request,
and no draw is used for two of them.
-/

namespace ApiStarter

open Interleave Interleave.Prog Relational

/-- A value handed out once, as its table stores it. -/
inductive Secret
  | link (tokenHash : String)
  | state (stateHash : String)
  | grant (codeHash : String)
  | challenge (id : String)
  | recoveryCode (codeHash : String)
  | session (id : String)
  deriving DecidableEq

/-- The statement stores the secret. -/
def Statement.Mints : Statement → Secret → Prop
  | .sql (.authTokens (.insert _ _ tokenHash _ _)), .link h => tokenHash = h
  | .sql (.oauthStates (.insert row)), .state h => row.stateHash = h
  | .sql (.loginGrants (.insert row)), .grant h => row.codeHash = h
  | .sql (.challenges (.insert row)), .challenge id => row.id = id
  | .sql (.recoveryCodes (.replaceAll _ _ hashes)), .recoveryCode h => h ∈ hashes
  | .sql (.qrSessions (.insert id ..)), .session id' => id = id'
  | _, _ => False

/-- What the draw number `n` can become. -/
def Context.Source (cx : Context) (n : ℕ) : Secret → Prop
  | .link h | .state h | .grant h => cx.sha256 (cx.randomToken n) = h
  | .challenge id => cx.simple (cx.randomUuid n) = id
  | .recoveryCode h => h ∈ (cx.randomRecoveryCodes n).map cx.sha256
  | .session id => takeChars 22 (cx.randomToken n) = id

/-- Different draws of the run become different secrets. -/
def Context.DistinctDraws (cx : Context) (v : Secret) (draws : ℕ) : Prop :=
  ∀ m n, m < draws → n < draws → cx.Source m v → cx.Source n v → m = n

def drawing (cx : Context) : Dispenser (machine cx) where
  draw := .draw
  count := Server.draws
  count_draw _ := rfl
  count_le q s := by
    cases q with
    | draw => exact Nat.le_succ _
    | _ => exact le_rfl
  count_env _ _ := rfl

/-- The discipline of `MintsFresh` for this application. -/
abbrev freshly (cx : Context) : AppDiscipline :=
  .along (MintsFresh (drawing cx) Statement.Mints cx.Source)

theorem not_mints_of_effect {q : Statement} (hq : q.effect.mints = false) (v : Secret) :
    ¬q.Mints v := by
  unfold Statement.Mints
  split
  all_goals first | simp at hq | exact id

section Walk

variable {cx : Context} {i n : ℕ} {k : Request} {W : AppWorld} {α ε : Type}

theorem freshly_keeps {q : Statement} (hq : ∀ v, ¬q.Mints v) (W : AppWorld)
    (hW : (freshly cx).Inv W) : (freshly cx).Keeps W (W.ran (machine cx) i k q) :=
  keeps_mintsFresh.mpr ⟨fun v hv ↦ absurd hv (hq v), hW⟩

/-- What mints nothing maintains freshness. -/
theorem maintains_of_only {p : Prog Statement.Res ε α}
    (hp : p.Only fun q ↦ q.effect.mints = false) : Maintains (machine cx) (freshly cx) i k p :=
  .of_only hp fun _ hq W hW ↦ freshly_keeps (not_mints_of_effect hq) W hW

theorem maintains_draw {p : ℕ → Prog Statement.Res ε α}
    (hp : ∀ n W, (freshly cx).Inv W → Unspent (drawing cx) Statement.Mints i n W.history →
      wp (machine cx) (freshly cx) i k (p n) (fun _ W ↦ (freshly cx).Inv W)
        (fun _ W ↦ (freshly cx).Inv W) W) :
    Maintains (machine cx) (freshly cx) i k (ask Statement.draw >>= p) := by
  intro W _
  refine wp_bind.mpr ((wp_ask _).mpr fun W' hW' ↦ ?_)
  have hkeep := freshly_keeps (i := i) (k := k) (not_mints_of_effect (q := .draw) rfl) W' hW'.inv
  exact ⟨⟨hkeep, hp _ _ hkeep.1 Unspent.drawn⟩, by rintro _ ⟨⟩⟩

/-- Storing a secret computed from an unspent draw. -/
theorem wp_mint {q : Sql} (hq : ∀ v, (Statement.sql q).Mints v → cx.Source n v)
    (h : Unspent (drawing cx) Statement.Mints i n W.history) :
    wp (machine cx) (freshly cx) i k (sql q) (fun _ W ↦ (freshly cx).Inv W)
      (fun _ W ↦ (freshly cx).Inv W) W := by
  refine wp_sql (fun _ _ h ↦ h) (fun W' hW' ↦ ?_) fun W' _ _ _ hInv ↦ hInv
  exact keeps_mintsFresh.mpr ⟨fun v hv ↦ ⟨n, hq v hv, h.evolve hW'⟩, hW'.inv⟩

theorem wp_spare {β : Type} {p : Prog Statement.Res ε α} {f : α → Prog Statement.Res ε β}
    (hp : p.Only fun q ↦ q.effect.mints = false) (hW : (freshly cx).Inv W)
    (h : Unspent (drawing cx) Statement.Mints i n W.history)
    (hf : ∀ a W, (freshly cx).Inv W → Unspent (drawing cx) Statement.Mints i n W.history →
      wp (machine cx) (freshly cx) i k (f a) (fun _ W ↦ (freshly cx).Inv W)
        (fun _ W ↦ (freshly cx).Inv W) W) :
    wp (machine cx) (freshly cx) i k (p >>= f) (fun _ W ↦ (freshly cx).Inv W)
      (fun _ W ↦ (freshly cx).Inv W) W :=
  wp_bind.mpr ((wp_unspent (hp.mono fun _ ↦ not_mints_of_effect) hW h).mono
    (fun a W hboth ↦ hf a W hboth.1 hboth.2) fun _ _ hboth ↦ hboth.1)

theorem maintains_issue {u : Uuid} {purpose : TokenPurpose} {ttl : Time}
    {newEmail : Option String} :
    Maintains (machine cx) (freshly cx) i k
      (OneTimeTokenService.issue cx u purpose ttl newEmail) := by
  refine .bind (maintains_of_only (by simp)) fun _ ↦ maintains_draw fun n W hW h ↦ ?_
  refine wp_spare (by simp [clock]) hW h fun now W hW h ↦ wp_bind.mpr ?_
  refine (wp_mint (fun v hv ↦ ?_) h).mono (fun _ _ h ↦ h) fun _ _ h ↦ h
  cases v <;> first | exact hv | exact hv.elim

theorem wp_insertState {row : Time → OAuthState} {W : AppWorld}
    (hrow : ∀ t, cx.sha256 (cx.randomToken n) = (row t).stateHash) (hW : (freshly cx).Inv W)
    (h : Unspent (drawing cx) Statement.Mints i n W.history) :
    wp (machine cx) (freshly cx) i k (OAuthService.insertState row)
      (fun _ W ↦ (freshly cx).Inv W) (fun _ W ↦ (freshly cx).Inv W) W := by
  refine wp_spare (by simp [clock]) hW h fun now W hW h ↦ ?_
  refine wp_spare (by simp) hW h fun _ W hW h ↦ wp_mint (fun v hv ↦ ?_) h
  cases v <;> first | exact (hrow now).trans hv | exact hv.elim

theorem maintains_start {provider : Provider} {u : Option Uuid} {path : String} :
    Maintains (machine cx) (freshly cx) i k (OAuthService.start cx provider u path) := by
  refine .bind (maintains_of_only (by simp)) fun _ ↦ maintains_draw fun n W hW h ↦ ?_
  refine wp_spare (p := generateToken cx) (by simp [generateToken]) hW h fun verifier W hW h ↦ ?_
  refine wp_spare (by simp [clock]) hW h fun now W hW h ↦ wp_bind.mpr ?_
  exact (wp_insertState (fun _ ↦ rfl) hW h).mono (fun _ W hW ↦ maintains_of_only (by simp) W hW)
    fun _ _ h ↦ h

theorem wp_insertGrant {u : Uuid} {expiresAt : Time} {W : AppWorld}
    (hW : (freshly cx).Inv W) (h : Unspent (drawing cx) Statement.Mints i n W.history) :
    wp (machine cx) (freshly cx) i k
      (OAuthService.insertGrant (cx.sha256 (cx.randomToken n)) u expiresAt)
      (fun _ W ↦ (freshly cx).Inv W) (fun _ W ↦ (freshly cx).Inv W) W := by
  refine wp_spare (by simp [clock]) hW h fun now W hW h ↦ ?_
  refine wp_spare (by simp) hW h fun _ W hW h ↦ wp_mint (fun v hv ↦ ?_) h
  cases v <;> first | exact hv | exact hv.elim

theorem maintains_grantFor {u : Uuid} {redirect : String} :
    Maintains (machine cx) (freshly cx) i k (OAuthService.grantFor cx u redirect) := by
  refine .bind (.mapErr (maintains_of_only (by simp))) fun _ ↦ ?_
  refine .bind (maintains_of_only (by simp)) fun _ ↦ .bind (maintains_of_only (by simp)) fun _ ↦ ?_
  refine .bind (maintains_of_only (by simp)) fun _ ↦ maintains_draw fun n W hW h ↦ ?_
  refine wp_spare (by simp [clock]) hW h fun now W hW h ↦ wp_bind.mpr (wp_bindBoth.mpr ?_)
  exact (wp_insertGrant hW h).mono (fun _ _ h ↦ h) fun _ _ h ↦ h

theorem maintains_storeChallenge {kind : ChallengeKind} {u : Option Uuid} {state : String} :
    Maintains (machine cx) (freshly cx) i k (PasskeysService.storeChallenge cx kind u state) := by
  refine maintains_draw fun n W hW h ↦ ?_
  refine wp_spare (by simp [clock]) hW h fun expiresFrom W hW h ↦ ?_
  refine wp_spare (by simp [clock]) hW h fun now W hW h ↦ ?_
  refine wp_spare (by simp) hW h fun _ W hW h ↦ wp_bind.mpr ?_
  refine (wp_mint (fun v hv ↦ ?_) h).mono (fun _ _ h ↦ h) fun _ _ h ↦ h
  cases v <;> first | exact hv | exact hv.elim

theorem maintains_create {ip agent : Option String} :
    Maintains (machine cx) (freshly cx) i k (QrLoginService.create cx ip agent) := by
  refine maintains_draw fun n W hW h ↦ ?_
  refine wp_spare (p := generateToken cx) (by simp [generateToken]) hW h fun secret W hW h ↦ ?_
  refine wp_spare (p := ask Statement.draw) (by simp) hW h fun m W hW h ↦ ?_
  refine wp_spare (by simp [clock]) hW h fun created W hW h ↦ ?_
  refine wp_spare (by simp [clock]) hW h fun now W hW h ↦ ?_
  refine wp_spare (by simp) hW h fun _ W hW h ↦ wp_bind.mpr ?_
  refine (wp_mint (fun v hv ↦ ?_) h).mono (fun _ W hW ↦ maintains_of_only (by simp) W hW)
    fun _ _ h ↦ h
  cases v <;> first | exact hv | exact hv.elim

theorem wp_replaceAll {u : Uuid} {W : AppWorld} (hW : (freshly cx).Inv W)
    (h : Unspent (drawing cx) Statement.Mints i n W.history) :
    wp (machine cx) (freshly cx) i k (TotpRecoveryCodeRepository.replaceAll u
      ((cx.randomRecoveryCodes n).map cx.sha256))
      (fun _ W ↦ (freshly cx).Inv W) (fun _ W ↦ (freshly cx).Inv W) W := by
  refine wp_spare (by simp) hW h fun found W hW h ↦ wp_mint (fun v hv ↦ ?_) h
  cases v <;> first | exact hv | exact hv.elim

theorem maintains_confirmSetup {actor : AuthUser} {code : String} :
    Maintains (machine cx) (freshly cx) i k (TotpService.confirmSetup cx actor code) := by
  refine .bind (maintains_of_only (by simp [TotpService.requireActiveUser])) fun user ↦ ?_
  refine .bind (maintains_of_only (by simp)) fun _ ↦ .bind (maintains_of_only (by simp)) fun _ ↦ ?_
  refine .bind (maintains_of_only (by simp)) fun _ ↦ .bind (maintains_of_only (by simp)) fun _ ↦ ?_
  refine .bind (maintains_of_only (by simp)) fun _ ↦ maintains_draw fun n W hW h ↦ wp_bind.mpr ?_
  exact (wp_replaceAll hW h).mono (fun _ _ h ↦ h) fun _ _ h ↦ h

end Walk

theorem minters_freshly (cx : Context) : Minters cx (freshly cx) where
  spare _ _ _ hq W hW := freshly_keeps (not_mints_of_effect hq) W hW
  issue _ _ _ _ _ _ := maintains_issue
  start _ _ _ _ _ := maintains_start
  grantFor _ _ _ _ := maintains_grantFor
  storeChallenge _ _ _ _ _ := maintains_storeChallenge
  create _ _ _ _ := maintains_create
  confirmSetup _ _ _ _ := maintains_confirmSetup
  deleteCodes _ _ _ W hW := freshly_keeps (fun v ↦ by cases v <;> exact id) W hW
  answers _ _ _ _ hW := Discipline.keeps_along_answered.mpr ⟨trivial, hW⟩

/-- A secret whose draws are distinct is stored at most once in a run. -/
theorem Reached.minted_once {cx : Context} {s : Server} {c : AppConfig} (hc : Reached cx s c)
    {v : Secret} (hdistinct : cx.DistinctDraws v c.world.store.draws) :
    Once (Event.Mints Statement.Mints v) c.world.history :=
  Reachable.minted_once hc (hc.along fun k _ ↦ (minters_freshly cx).handles k) hdistinct

/-- What is stored comes from a draw of the run. -/
theorem Reached.source_of_mints {cx : Context} {s : Server} {c : AppConfig} (hc : Reached cx s c)
    {v : Secret} {e : AppEvent} (he : e ∈ c.world.history) (hv : e.Mints Statement.Mints v) :
    ∃ n < c.world.store.draws, cx.Source n v :=
  Reachable.source_of_mints hc (hc.along fun k _ ↦ (minters_freshly cx).handles k) he hv

end ApiStarter
