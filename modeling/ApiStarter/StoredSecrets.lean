import ApiStarter.QrSessions
import ApiStarter.Retention

/-!
# New rows have new keys

A secret is stored because it was stored at the start or made since.  When the
draws of a run are distinct and give no secret that is out already, a new row
therefore never meets an old one, and a QR session that is found again still
ends when it did.
-/

namespace ApiStarter

open Interleave Interleave.Prog Relational

def Secret.expires : Secret → Bool
  | .recoveryCode _ => false
  | _ => true

/-- No two draws of the run give one secret, and none gives a secret stored at the start. -/
structure Context.DrawsFresh (cx : Context) (s : Server) (draws : ℕ) : Prop where
  distinct : ∀ v : Secret, v.expires = true → cx.DistinctDraws v draws
  notDrawn : ∀ v : Secret, v.stored s.db = true → ∀ n < draws, ¬cx.Source n v

theorem Secret.expires_of_stored {v : Secret} {db : Db} (h : v.stored db = true) :
    v.expires = true := by
  cases v <;> first | rfl | cases h

/-- Nothing comes to be stored but by being made. -/
theorem mints_of_stored_rises {cx : Context} {v : Secret} {q : Statement} {s : Server}
    (h : Rises (machine cx) (fun s ↦ v.stored s.db = true) q s) : q.Mints v := by
  obtain ⟨hbefore, hafter⟩ := h
  cases q with
  | sql q =>
      cases v with
      | link hash =>
          obtain ⟨t, ht⟩ := Option.isSome_iff_exists.mp hafter
          have hnone : s.db.authTokens.get? hash = none := by simpa [Secret.stored] using hbefore
          cases q with
          | authTokens q =>
              obtain ⟨userId, purpose, newEmail, expiresAt, rfl, -⟩ :=
                AuthTokenSql.get?_run_none hnone ht
              rfl
          | _ => exact absurd hafter hbefore
      | state hash =>
          obtain ⟨r, hr⟩ := Option.isSome_iff_exists.mp hafter
          have hnone : s.db.oauthStates.get? hash = none := by simpa [Secret.stored] using hbefore
          cases q with
          | oauthStates q =>
              rcases OAuthStateSql.get?_run hr with hold | rfl
              · simp [hnone] at hold
              · exact Table.key_of_get? hr
          | _ => exact absurd hafter hbefore
      | grant hash =>
          obtain ⟨g, hg⟩ := Option.isSome_iff_exists.mp hafter
          have hnone : s.db.loginGrants.get? hash = none := by simpa [Secret.stored] using hbefore
          cases q with
          | loginGrants q =>
              obtain rfl := LoginGrantSql.get?_run_none hnone hg
              exact Table.key_of_get? hg
          | _ => exact absurd hafter hbefore
      | challenge id =>
          obtain ⟨c, hc⟩ := Option.isSome_iff_exists.mp hafter
          have hnone : s.db.challenges.get? id = none := by simpa [Secret.stored] using hbefore
          cases q with
          | challenges q =>
              rcases ChallengeSql.get?_run hc with hold | rfl
              · simp [hnone] at hold
              · exact Table.key_of_get? hc
          | _ => exact absurd hafter hbefore
      | recoveryCode hash => cases hafter
      | session id =>
          obtain ⟨r, hr⟩ := Option.isSome_iff_exists.mp hafter
          have hnone : s.db.qrSessions.get? id = none := by simpa [Secret.stored] using hbefore
          cases q with
          | qrSessions q =>
              obtain ⟨_, _, _, _, _, _, rfl, -⟩ := QrSql.get?_run_none hnone hr
              rfl
          | _ => exact absurd hafter hbefore
  | _ => exact absurd hafter hbefore

section Runs

variable {cx : Context} {s : Server} {c : AppConfig} (hc : Reached cx s c)
include hc

theorem Reached.stored_origin {v : Secret} (h : v.stored c.world.store.db = true) :
    v.stored s.db = true ∨ ∃ e ∈ c.world.history, e.Mints Statement.Mints v := by
  by_cases hstart : v.stored s.db = true
  · exact .inl hstart
  · obtain ⟨mid, e, earlier, hhist, he, -⟩ := hc.rises_of_live (fun s ↦ v.stored s.db = true)
      (fun _ _ ↦ Iff.rfl) hstart h
    refine .inr ⟨e, by simp [hhist], ?_⟩
    cases e with
    | answered => exact he.elim
    | ran i k q b => exact mints_of_stored_rises he

variable (hfresh : cx.DrawsFresh s c.world.store.draws)
include hfresh

/-- What is made was not stored before. -/
theorem Reached.unstored_of_mints {later earlier : List AppEvent} {i : ℕ} {k : Request}
    {q : Statement} {b : Server} (h : c.world.history = later ++ .ran i k q b :: earlier)
    {v : Secret} (hv : q.Mints v) : v.stored b.db = false := by
  by_contra hne
  have hstored : v.stored b.db = true := by simpa using hne
  obtain ⟨c', hc', hworld⟩ := hc.past h
  rcases Reached.stored_origin hc' (v := v) (by rw [hworld]; exact hstored) with hstart |
    ⟨e, he, hmints⟩
  · obtain ⟨n, hn, hsource⟩ := hc.source_of_mints (v := v) (e := .ran i k q b) (by simp [h]) hv
    exact hfresh.notDrawn v hstart n hn hsource
  · have honce := hc.minted_once (hfresh.distinct v (Secret.expires_of_stored hstored))
    rw [h] at honce
    rw [hworld] at he
    exact (List.pairwise_cons.mp honce.of_append).1 e he ⟨hmints, hv⟩

/-- A session found twice has the same fixed columns, also one from before the run. -/
theorem Reached.issued_eq_always {e₁ e₂ : AppEvent} (he₁ : e₁ ∈ c.world.history)
    (he₂ : e₂ ∈ c.world.history) {id : String} {r₁ r₂ : QrSession}
    (hr₁ : e₁.store.db.qrSessions.get? id = some r₁)
    (hr₂ : e₂.store.db.qrSessions.get? id = some r₂) : r₁.issued = r₂.issued := by
  cases hstart : s.db.qrSessions.get? id with
  | none => exact hc.issued_eq hstart (hfresh.distinct (.session id) rfl) he₁ he₂ hr₁ hr₂
  | some r₀ =>
      have hkept {e : AppEvent} (he : e ∈ c.world.history) {r : QrSession}
          (hr : e.store.db.qrSessions.get? id = some r) : r₀.issued = r.issued := by
        rcases hc.session_origin he hr with
          ⟨r', hr', hissued⟩ | ⟨_, _, _, _, _, _, _, _, _, hmem, -⟩
        · obtain rfl : r₀ = r' := Option.some.inj (hstart.symm.trans hr')
          exact hissued
        · obtain ⟨n, hn, hsource⟩ := hc.source_of_mints (v := .session id) hmem rfl
          exact absurd hsource (hfresh.notDrawn _ (by simp [Secret.stored, hstart]) n hn)
      exact (hkept he₁ hr₁).symm.trans (hkept he₂ hr₂)

end Runs

/-! ## What each statement of a run may rely on -/

/-- Some event found the session, to end at `e`. -/
def SeenToEnd (h : List AppEvent) (id : String) (e : Time) : Prop :=
  ∃ x ∈ h, ∃ r, x.store.db.qrSessions.get? id = some r ∧ r.expiresAt = e

theorem SeenToEnd.mono {h h' : List AppEvent} (hsuffix : h <:+ h') {id : String} {e : Time}
    (hseen : SeenToEnd h id e) : SeenToEnd h' id e := by
  obtain ⟨x, hx, r, hr, hends⟩ := hseen
  exact ⟨x, hsuffix.subset hx, r, hr, hends⟩

/-- The keys a statement brings are free, and sessions end when they were seen to end. -/
def KeysFree : AppEvent → List AppEvent → Prop
  | .ran _ _ q b, earlier => (∀ v, q.Mints v → v.stored b.db = false) ∧
      ∀ id e, SeenToEnd earlier id e → ∀ r, b.db.qrSessions.get? id = some r → r.expiresAt = e
  | .answered .., _ => True

theorem Reached.along_keysFree {cx : Context} {s : Server} {c : AppConfig} (hc : Reached cx s c)
    (hfresh : cx.DrawsFresh s c.world.store.draws) : Along KeysFree c.world.history := by
  apply Along.of_splits
  intro later x earlier hhist
  cases x with
  | answered => trivial
  | ran i k q b =>
      constructor
      · exact fun v hv ↦ hc.unstored_of_mints hfresh hhist hv
      · rintro id e ⟨x, hx, r₀, hr₀, rfl⟩ r hr
        have hmem : x ∈ c.world.history := by simp [hhist, hx]
        have hran : .ran i k q b ∈ c.world.history := by simp [hhist]
        have hissued := hc.issued_eq_always hfresh hran hmem hr hr₀
        exact congrArg (fun t ↦ t.2.2) hissued

end ApiStarter
