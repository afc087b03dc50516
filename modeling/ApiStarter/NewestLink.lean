import ApiStarter.Links
import ApiStarter.Minters

/-!
# The newest link

Issuing a link first retires the unused links of its account and purpose and
then, in a statement of its own, stores the new one.  Two requests that both
retire before either stores leave two links that work.
-/

namespace ApiStarter

open Interleave Interleave.Prog Relational

def AtMostOneUnused (u : Uuid) (purpose : TokenPurpose) (s : Server) : Prop :=
  ∀ t₁ ∈ s.db.authTokens, ∀ t₂ ∈ s.db.authTokens, t₁.isUnused u purpose = true →
    t₂.isUnused u purpose = true → t₁ = t₂

/-- Some link of the account and purpose still works. -/
def someUnused (u : Uuid) (purpose : TokenPurpose) (s : Server) : Prop :=
  ∃ t ∈ s.db.authTokens, t.isUnused u purpose = true

/-- Thread `i` retires the links of the account and purpose. -/
def retiresLinks (i : ℕ) (u : Uuid) (purpose : TokenPurpose) : AppEvent → Bool
  | .ran j _ (.sql (.authTokens (.invalidateUnused u' purpose'))) _ =>
      decide (j = i) && decide (u' = u) && decide (purpose' = purpose)
  | _ => false

def storesLink (u : Uuid) (purpose : TokenPurpose) : AppEvent → Bool
  | .ran _ _ (.sql (.authTokens (.insert u' purpose' ..))) _ =>
      decide (u' = u) && decide (purpose' = purpose)
  | _ => false

/-- No request stores a link of the account and purpose between the two statements of
another that issues one. -/
def issuesAlone (u : Uuid) (purpose : TokenPurpose) (e : AppEvent) (earlier : List AppEvent) :
    Bool :=
  !storesLink u purpose e || (earlier.takeWhile fun x ↦ !retiresLinks e.tid u purpose x).all
    fun x ↦ !storesLink u purpose x

/-! ## Statements -/

section Statements

variable {cx : Context} {u : Uuid} {purpose : TokenPurpose} {s : Server} {q : Statement}

/-- What is unused after a statement was so before, or was stored by it. -/
theorem unused_exec {t : AuthToken} (ht : t ∈ ((machine cx).exec q s).2.db.authTokens)
    (hunused : t.isUnused u purpose = true) : t ∈ s.db.authTokens ∨ ∃ newEmail expiresAt,
      q = .sql (.authTokens (.insert u purpose t.tokenHash newEmail expiresAt)) ∧
        t = ⟨u, purpose, t.tokenHash, newEmail, expiresAt, none, s.now⟩ := by
  have hbits := hunused
  simp only [AuthToken.isUnused, Bool.and_eq_true, decide_eq_true_eq,
    Option.isNone_iff_eq_none] at hbits
  obtain ⟨⟨rfl, rfl⟩, hnone⟩ := hbits
  cases q with
  | sql q =>
      cases q with
      | authTokens q =>
          rcases AuthTokenSql.mem_run ht hnone with hold |
            ⟨u', purpose', newEmail, expiresAt, rfl, heq⟩
          · exact .inl hold
          · refine .inr ⟨newEmail, expiresAt, ?_, ?_⟩
            · rw [heq]
            · rw [heq]
      | _ => exact .inl ht
  | _ => exact .inl ht

theorem storesLink_of_rises {i : ℕ} {k : Request}
    (h : Rises (machine cx) (someUnused u purpose) q s) :
    storesLink u purpose (.ran i k q s) = true := by
  obtain ⟨hbefore, t, ht, hunused⟩ := h
  rcases unused_exec ht hunused with hold | ⟨newEmail, expiresAt, rfl, -⟩
  · exact absurd ⟨t, hold, hunused⟩ hbefore
  · simp [storesLink]

theorem ends_someUnused : Ends (machine cx) (someUnused u purpose)
    (.sql (.authTokens (.invalidateUnused u purpose))) s := by
  rintro ⟨t, ht, hunused⟩
  simp only [exec_sql, Sql.run, AuthTokenSql.run] at ht
  obtain ⟨t₀, -, rfl⟩ := Table.mem_updateWhere.mp ht
  split at hunused
  · simp [AuthToken.isUnused, AuthToken.markUsed] at hunused
  · simp_all

end Statements

/-! ## Requests -/

/-- A link is stored by a thread that has retired its account's links of that purpose. -/
def RetiresFirst : AppEvent → List AppEvent → Prop
  | .ran i _ (.sql (.authTokens (.insert u purpose ..))) _, earlier =>
      ∃ e ∈ earlier, retiresLinks i u purpose e = true
  | _, _ => True

section Handlers

variable {cx : Context}

theorem retiresFirst_of_effect {q : Statement} (hq : ∀ purpose, q.effect ≠ .issueToken purpose)
    (i : ℕ) (k : Request) (b : Server) (h : List AppEvent) : RetiresFirst (.ran i k q b) h := by
  unfold RetiresFirst
  split
  next heq =>
    cases heq
    exact absurd rfl (hq _)
  next => trivial

theorem keeps_retiresFirst {i : ℕ} {k : Request} {q : Statement}
    (hq : ∀ purpose, q.effect ≠ .issueToken purpose) (W : AppWorld)
    (hW : (Discipline.along RetiresFirst).Inv W) :
    (Discipline.along RetiresFirst).Keeps W (W.ran (machine cx) i k q) :=
  Discipline.keeps_along_ran.mpr ⟨retiresFirst_of_effect hq i k _ _, hW⟩

theorem maintains_issue_retiresFirst (i : ℕ) (k : Request) (u : Uuid) (purpose : TokenPurpose)
    (ttl : Time) (newEmail : Option String) : Maintains (machine cx) (.along RetiresFirst) i k
      (OneTimeTokenService.issue cx u purpose ttl newEmail) := by
  have hE : ∀ (e : AppError) (W : AppWorld), (Discipline.along RetiresFirst).Inv W →
      (Discipline.along RetiresFirst).Inv W := fun _ _ h ↦ h
  intro W _
  refine wp_bind.mpr (wp_sql hE (fun W₁ h₁ ↦ keeps_retiresFirst (by simp) W₁ h₁.inv)
    fun W₁ _ _ _ hInv₁ ↦ ?_)
  have hretired : ∃ e ∈ (W₁.ran (machine cx) i k
      (.sql (.authTokens (.invalidateUnused u purpose)))).history,
        retiresLinks i u purpose e = true := ⟨_, List.mem_cons_self, by simp [retiresLinks]⟩
  -- the retirement stays in the history while the token is made
  have keeps : ∀ {α : Type} {p : Req α}, (p.Only fun q ↦ q.effect = .none) → ∀ W : AppWorld,
      (Discipline.along RetiresFirst).Inv W →
        (∃ e ∈ W.history, retiresLinks i u purpose e = true) →
          wp (machine cx) (.along RetiresFirst) i k p
            (fun _ W ↦ (Discipline.along RetiresFirst).Inv W ∧
              ∃ e ∈ W.history, retiresLinks i u purpose e = true)
            (fun _ W ↦ (Discipline.along RetiresFirst).Inv W ∧
              ∃ e ∈ W.history, retiresLinks i u purpose e = true) W := by
    intro α p hp W hW hmem
    refine wp_stable hp (A := fun W ↦ ∃ e ∈ W.history, retiresLinks i u purpose e = true)
      (fun q hq W hW hmem ↦ ⟨keeps_retiresFirst (by simp [hq]) W hW, ?_⟩)
        (fun W W' hW' hmem ↦ ?_) hW hmem
    · obtain ⟨e, he, hretires⟩ := hmem
      exact ⟨e, List.mem_cons_of_mem _ he, hretires⟩
    · obtain ⟨e, he, hretires⟩ := hmem
      exact ⟨e, hW'.mem he, hretires⟩
  refine wp_bind.mpr ((keeps (by simp [generateToken]) _ hInv₁ hretired).mono
    (fun token W₂ h₂ ↦ ?_) fun _ _ h ↦ h.1)
  refine wp_bind.mpr
    ((keeps (by simp [clock]) _ h₂.1 h₂.2).mono (fun now W₃ h₃ ↦ ?_) fun _ _ h ↦ h.1)
  refine wp_bind.mpr (wp_sql hE (fun W₄ h₄ ↦ Discipline.keeps_along_ran.mpr ⟨?_, h₄.inv⟩)
    fun W₄ _ _ _ hInv₄ ↦ hInv₄)
  obtain ⟨e, he, hretires⟩ := h₃.2
  exact ⟨e, h₄.mem he, hretires⟩

theorem minters_retiresFirst (cx : Context) : Minters cx (.along RetiresFirst) where
  spare i k q hq W hW := keeps_retiresFirst (by rintro purpose heq; simp [heq] at hq) W hW
  issue := maintains_issue_retiresFirst
  start _ _ _ _ _ := .of_only (S := fun q ↦ ∀ purpose, q.effect ≠ .issueToken purpose)
    (only_start (fun q hq ↦ by simp [hq]) (by simp)) fun q hq ↦ keeps_retiresFirst hq
  grantFor _ _ _ _ := .of_only (only_grantFor fun q hq ↦ hq) fun q hq ↦
    keeps_retiresFirst (by rintro purpose heq; simp [heq] at hq)
  storeChallenge _ _ _ _ _ := .of_only (only_storeChallenge fun q hq ↦ hq) fun q hq ↦
    keeps_retiresFirst (by rintro purpose heq; simp [heq] at hq)
  create _ _ _ _ := .of_only (S := fun q ↦ ∀ purpose, q.effect ≠ .issueToken purpose)
    (by simp [QrLoginService.create]) fun q hq ↦ keeps_retiresFirst hq
  confirmSetup _ _ _ _ := .of_only (S := fun q ↦ ∀ purpose, q.effect ≠ .issueToken purpose)
    (by simp [TotpService.confirmSetup, TotpService.requireActiveUser, Prog.bind_assoc])
    fun q hq ↦ keeps_retiresFirst hq
  deleteCodes _ _ _ W hW := keeps_retiresFirst (by simp) W hW
  answers _ _ _ _ hW := Discipline.keeps_along_answered.mpr ⟨trivial, hW⟩

end Handlers

/-! ## All runs -/

theorem newest_link_only {cx : Context} {s : Server} {c : AppConfig} {u : Uuid}
    {purpose : TokenPurpose} (hc : Reached cx s c) (hstart : AtMostOneUnused u purpose s)
    (halone : Along (fun e earlier ↦ issuesAlone u purpose e earlier = true) c.world.history) :
    AtMostOneUnused u purpose c.world.store := by
  refine hc.live_of_start (AtMostOneUnused u purpose)
    (fun _ _ ↦ Iff.rfl) hstart fun x hx hone hend ↦ ?_
  obtain ⟨later, earlier, hhist⟩ := List.append_of_mem hx
  obtain ⟨c', hc', hworld⟩ := hc.past hhist
  have hretires : RetiresFirst x earlier :=
    Along.of_append (hhist ▸ hc.along fun k _ ↦ (minters_retiresFirst cx).handles k)
  have hcond : issuesAlone u purpose x earlier = true := Along.of_append (hhist ▸ halone)
  cases x with
  | answered => exact hend
  | ran i k q b =>
      by_cases hstores : storesLink u purpose (.ran i k q b) = true
      · -- everything was retired, and nothing was stored since
        have hnone : ¬someUnused u purpose b := by
          obtain ⟨hash, newEmail, expiresAt, rfl⟩ : ∃ hash newEmail expiresAt,
              q = .sql (.authTokens (.insert u purpose hash newEmail expiresAt)) := by
            unfold storesLink at hstores
            split at hstores
            next heq =>
              cases heq
              simp only [Bool.and_eq_true, decide_eq_true_eq] at hstores
              obtain ⟨rfl, rfl⟩ := hstores
              exact ⟨_, _, _, rfl⟩
            next => cases hstores
          obtain ⟨e, older, hsplit, hown⟩ := exists_first hretires
          have hearlier : c'.world.history =
              (earlier.takeWhile fun e ↦ !retiresLinks i u purpose e) ++ e :: older := by
            rw [hworld, ← hsplit]
          have hdead := hc'.not_live_of_ended (someUnused u purpose) (fun _ _ ↦ Iff.rfl) hearlier
            (fun x hx hrise ↦ ?_) ?_
          · rwa [hworld] at hdead
          · simp only [issuesAlone, hstores, Bool.not_true, Bool.false_or, List.all_eq_true,
              Event.tid_ran] at hcond
            cases x with
            | answered => exact hrise
            | ran j k' q' b' => simpa [storesLink_of_rises hrise] using hcond _ hx
          · unfold retiresLinks at hown
            split at hown
            next =>
              simp only [Bool.and_eq_true, decide_eq_true_eq] at hown
              obtain ⟨⟨rfl, rfl⟩, rfl⟩ := hown
              exact ends_someUnused
            next => cases hown
        refine hend fun t₁ ht₁ t₂ ht₂ hunused₁ hunused₂ ↦ ?_
        rcases unused_exec ht₁ hunused₁ with hold | ⟨newEmail, expiresAt, rfl, heq₁⟩
        · exact absurd ⟨t₁, hold, hunused₁⟩ hnone
        rcases unused_exec ht₂ hunused₂ with hold | ⟨newEmail', expiresAt', heq, heq₂⟩
        · exact absurd ⟨t₂, hold, hunused₂⟩ hnone
        simp only [Statement.sql.injEq, Sql.authTokens.injEq, AuthTokenSql.insert.injEq] at heq
        rw [heq₁, heq₂]
        simp [heq]
      · refine hend fun t₁ ht₁ t₂ ht₂ hunused₁ hunused₂ ↦ ?_
        have hold : ∀ t ∈ ((machine cx).exec q b).2.db.authTokens, t.isUnused u purpose = true →
            t ∈ b.db.authTokens := by
          intro t ht hunused
          rcases unused_exec ht hunused with hold | ⟨newEmail, expiresAt, rfl, -⟩
          · exact hold
          · exact absurd (by simp [storesLink]) hstores
        exact hone t₁ (hold t₁ ht₁ hunused₁) t₂ (hold t₂ ht₂ hunused₂) hunused₁ hunused₂

def Request.forgets : Request → Bool
  | .forgotPassword _ => true
  | _ => false

namespace LinkSample

open Sample

/-- Both requests have retired the older links before either stores its own. -/
def doubleClicked : List (Action Request ℕ) :=
  [.start (.forgotPassword "ada@example.com"), .start (.forgotPassword "ada@example.com")] ++
    List.replicate 4 (.run 0) ++ List.replicate 4 (.run 1) ++ List.replicate 3 (.run 0) ++
      List.replicate 3 (.run 1)

def bothWork (c : AppConfig) : Bool :=
  match c.world.store.db.authTokens.rows with
  | [t₁, t₂] => t₁.isUnused 1 .passwordReset && t₂.isUnused 1 .passwordReset &&
      decide (t₁.tokenHash ≠ t₂.tokenHash)
  | _ => false

end LinkSample

theorem newest_link_only_sequentially :
    ∃ c, Reached .sample LinkSample.start c ∧ c.world.store.db.authTokens.rows.length = 2 ∧
      AtMostOneUnused 1 .passwordReset c.world.store := by
  let test : AppConfig → Bool := fun c ↦ decide (c.world.store.db.authTokens.rows.length = 2) &&
    decide (Along (fun e earlier ↦ issuesAlone 1 .passwordReset e earlier = true) c.world.history)
  obtain ⟨c, hc, htest⟩ : ∃ c, Reached .sample LinkSample.start c ∧ test c = true :=
    Reachable.of_schedule
      (LinkSample.forgotten ++ Sample.alone 1 (.forgotPassword "ada@example.com") 8)
      test (by decide) (by decide)
  obtain ⟨htwo, halone⟩ := (Bool.and_eq_true_iff ..).mp htest
  exact ⟨c, hc, of_decide_eq_true htwo,
    newest_link_only hc (by rintro t ⟨⟩) (of_decide_eq_true halone)⟩

/-- After a double click on "forgot password" both links work. -/
theorem two_links_work :
    ¬∀ (cx : Context) (s : Server) (c : AppConfig) (u : Uuid) (purpose : TokenPurpose),
      Reachable (machine cx) (handle cx) (fun k ↦ k.forgets = true) s c →
        AtMostOneUnused u purpose s → AtMostOneUnused u purpose c.world.store := by
  intro h
  obtain ⟨c, hc, htest⟩ : ∃ c, Reachable (machine .sample) (handle .sample)
      (fun k ↦ k.forgets = true) LinkSample.start c ∧ LinkSample.bothWork c = true :=
    Reachable.of_schedule LinkSample.doubleClicked LinkSample.bothWork (by decide) (by decide)
  unfold LinkSample.bothWork at htest
  split at htest
  next t₁ t₂ hrows =>
    simp only [Bool.and_eq_true, decide_eq_true_eq] at htest
    obtain ⟨⟨hunused₁, hunused₂⟩, hne⟩ := htest
    refine hne (congrArg _ (h .sample _ c 1 .passwordReset hc (by rintro t ⟨⟩) t₁ ?_ t₂ ?_
      hunused₁ hunused₂))
    · simp [Table.mem_def, hrows]
    · simp [Table.mem_def, hrows]
  next => cases htest

end ApiStarter
