import ApiStarter.Freshness

/-!
# Signing in through a QR code

A session goes from pending to scanned to approved to consumed, each move made
by one guarded `UPDATE`.  Since its id is drawn only once, it goes through each
state at most once, and what allows a token to be collected can be read off the
history backwards.
-/

namespace ApiStarter

open Interleave Interleave.Prog Relational

/-- The session exists and passes the test. -/
def sessionIs (id : String) (p : QrSession → Bool) (s : Server) : Prop :=
  ∃ r, s.db.qrSessions.get? id = some r ∧ p r = true

/-- What is fixed when a session is created. -/
def QrSession.issued (r : QrSession) : String × String × Time := (r.secretHash, r.code, r.expiresAt)

def QrSession.isPending (r : QrSession) : Bool := r.status = .pending
def QrSession.isOpen (r : QrSession) : Bool :=
  decide (r.status = .pending) || decide (r.status = .scanned) || decide (r.status = .approved)
def QrSession.isScannedBy (u : Uuid) (r : QrSession) : Bool :=
  decide (r.status = .scanned) && decide (r.userId = some u)
def QrSession.isApprovedFor (u : Uuid) (r : QrSession) : Bool :=
  decide (r.status = .approved) && decide (r.userId = some u)

/-! ## One statement -/

section Statements

variable {cx : Context} {id : String} {p : QrSession → Bool} {s : Server}

theorem get?_exec_qrSessions {r : QrSession} (h : s.db.qrSessions.get? id = some r) (q : QrSql) :
    ((machine cx).exec (.sql (.qrSessions q)) s).2.db.qrSessions.get? id = q.onRow s.now r :=
  QrSql.get?_run h q

/-- A session comes to pass a test when it is created or by a change of its row. -/
theorem sessionIs_rises {q : Statement} (h : Rises (machine cx) (sessionIs id p) q s) :
    (∃ hash code ip agent expires created,
      q = .sql (.qrSessions (.insert id hash code ip agent expires created)) ∧
        p ⟨id, hash, code, .pending, none, ip, agent, 0, expires, created⟩ = true) ∨
      ∃ q' r r', q = .sql (.qrSessions q') ∧ s.db.qrSessions.get? id = some r ∧ p r = false ∧
        r.Moves s.now q' r' ∧ p r' = true := by
  obtain ⟨hbefore, r', hafter, hp'⟩ := h
  cases q with
  | sql q =>
      cases q with
      | qrSessions q =>
          cases hrow : s.db.qrSessions.get? id with
          | none =>
              obtain ⟨hash, code, ip, agent, expires, created, rfl, rfl⟩ :=
                QrSql.get?_run_none hrow hafter
              exact .inl ⟨hash, code, ip, agent, expires, created, rfl, hp'⟩
          | some r =>
              have hp : p r = false := by
                by_contra hne
                exact hbefore ⟨r, hrow, by simpa using hne⟩
              rw [get?_exec_qrSessions hrow] at hafter
              exact .inr ⟨q, r, r', rfl, rfl, hp, QrSql.moves_of_onRow hafter, hp'⟩
      | _ => exact absurd ⟨r', hafter, hp'⟩ hbefore
  | _ => exact absurd ⟨r', hafter, hp'⟩ hbefore

/-- Nothing but a resolution towards it makes an existing session pending. -/
theorem mints_of_pending_rises {q : Statement} (hq : q.effect ≠ .resolveQr .pending)
    (h : Rises (machine cx) (sessionIs id QrSession.isPending) q s) : q.Mints (.session id) := by
  rcases sessionIs_rises h with ⟨hash, code, ip, agent, expires, created, rfl, -⟩ |
    ⟨q', r, r', rfl, -, hp, hmove, hp'⟩
  · rfl
  · exfalso
    cases hmove with
    | stays => simp [hp] at hp'
    | scanned u hvalid => simp [QrSession.isPending] at hp'
    | resolved u target hvalid =>
        obtain rfl : target = .pending := by simpa [QrSession.isPending] using hp'
        exact hq rfl
    | miscoded hvalid =>
        simp only [QrSession.isPending, QrSession.withWrongCode, hvalid, decide_eq_true_eq] at hp'
        split at hp' <;> cases hp'
    | consumed hvalid => simp [QrSession.isPending] at hp'

theorem mints_of_open_rises {q : Statement}
    (h : Rises (machine cx) (sessionIs id QrSession.isOpen) q s) : q.Mints (.session id) := by
  rcases sessionIs_rises h with ⟨hash, code, ip, agent, expires, created, rfl, -⟩ |
    ⟨q', r, r', rfl, -, hp, hmove, hp'⟩
  · rfl
  · exfalso
    cases hmove with
    | stays => simp [hp] at hp'
    | scanned u hvalid => simp_all [QrSession.isOpen, QrSession.scannable]
    | resolved u target hvalid => simp_all [QrSession.isOpen, QrSession.resolvable]
    | miscoded hvalid => simp [QrSession.isOpen, hvalid] at hp
    | consumed hvalid => simp [QrSession.isOpen] at hp'

theorem scan_of_rises {u : Uuid} {q : Statement}
    (h : Rises (machine cx) (sessionIs id (QrSession.isScannedBy u)) q s) :
    q = .sql (.qrSessions (.markScanned id u)) ∧ sessionIs id (QrSession.scannable s.now) s := by
  rcases sessionIs_rises h with ⟨hash, code, ip, agent, expires, created, rfl, hp⟩ |
    ⟨q', r, r', rfl, hrow, hp, hmove, hp'⟩
  · simp [QrSession.isScannedBy] at hp
  · obtain rfl : r.id = id := Table.key_of_get? hrow
    cases hmove with
    | stays => simp [hp] at hp'
    | scanned u' hvalid =>
        obtain rfl : u' = u := by simpa [QrSession.isScannedBy] using hp'
        exact ⟨rfl, r, hrow, hvalid⟩
    | resolved u' target hvalid =>
        exfalso
        simp_all [QrSession.isScannedBy, QrSession.resolvable]
    | miscoded hvalid =>
        exfalso
        simp_all [QrSession.isScannedBy, QrSession.withWrongCode]
    | consumed hvalid => simp [QrSession.isScannedBy] at hp'

theorem approve_of_rises {u : Uuid} {q : Statement}
    (h : Rises (machine cx) (sessionIs id (QrSession.isApprovedFor u)) q s) :
    q = .sql (.qrSessions (.resolve id u .approved)) ∧
      sessionIs id (QrSession.resolvable u s.now) s := by
  rcases sessionIs_rises h with ⟨hash, code, ip, agent, expires, created, rfl, hp⟩ |
    ⟨q', r, r', rfl, hrow, hp, hmove, hp'⟩
  · simp [QrSession.isApprovedFor] at hp
  · obtain rfl : r.id = id := Table.key_of_get? hrow
    cases hmove with
    | stays => simp [hp] at hp'
    | scanned u' hvalid => simp [QrSession.isApprovedFor] at hp'
    | resolved u' target hvalid =>
        simp only [QrSession.isApprovedFor, Bool.and_eq_true, decide_eq_true_eq] at hp'
        obtain ⟨rfl, hu⟩ := hp'
        have hu' : r.userId = some u' := by
          simp only [QrSession.resolvable, Bool.and_eq_true, decide_eq_true_eq] at hvalid
          exact hvalid.1.2
        obtain rfl : u' = u := Option.some.inj (hu'.symm.trans hu)
        exact ⟨rfl, r, hrow, hvalid⟩
    | miscoded hvalid =>
        simp only [QrSession.isApprovedFor, QrSession.withWrongCode, hvalid, Bool.and_eq_true,
          decide_eq_true_eq] at hp'
        split at hp' <;> cases hp'.1
    | consumed hvalid => simp [QrSession.isApprovedFor] at hp'

theorem QrSession.Moves.issued_eq {now : Time} {r r' : QrSession} {q : QrSql}
    (h : r.Moves now q r') : r'.issued = r.issued := by
  cases h <;> rfl

/-- A wrong code for the session is recorded. -/
def recordsWrongCode (id : String) : AppEvent → Bool
  | .ran _ _ (.sql (.qrSessions (.recordWrongCode id'))) b => decide (id' = id) &&
      (b.db.qrSessions.get? id).any fun r ↦ decide (r.status = .scanned)
  | _ => false

/-- Only statements on the sessions record wrong codes, or change a session. -/
theorem idle_of_not_qrSessions {q : Statement} (hq : ¬∃ q', q = .sql (.qrSessions q')) (i : ℕ)
    (k : Request) : recordsWrongCode id (.ran i k q s) = false ∧
      ((machine cx).exec q s).2.db.qrSessions = s.db.qrSessions := by
  constructor
  · unfold recordsWrongCode
    split
    next heq =>
      obtain ⟨-, -, rfl, -⟩ := Event.ran.inj heq
      exact absurd ⟨_, rfl⟩ hq
    next => rfl
  · cases q with
    | sql q =>
        cases q with
        | qrSessions q => exact absurd ⟨q, rfl⟩ hq
        | _ => rfl
    | _ => rfl

/-- How many wrong codes have been recorded for the session. -/
def wrongCodes (id : String) (h : List AppEvent) : ℕ := h.countP (recordsWrongCode id)

theorem wrongCodes_cons (id : String) (e : AppEvent) (h : List AppEvent) :
    wrongCodes id (e :: h) = wrongCodes id h + if recordsWrongCode id e then 1 else 0 :=
  List.countP_cons

theorem attempts_onRow {r r' : QrSession} {q : QrSql} (hr : s.db.qrSessions.get? id = some r)
    (hr' : q.onRow s.now r = some r') (i : ℕ) (k : Request) :
    r'.attempts =
      r.attempts + if recordsWrongCode id (.ran i k (.sql (.qrSessions q)) s) then 1 else 0 := by
  have hid : r.id = id := Table.key_of_get? hr
  cases q with
  | deleteExpired cutoff =>
      simp only [QrSql.onRow] at hr'
      split at hr'
      · cases hr'
      · obtain rfl := Option.some.inj hr'
        simp [recordsWrongCode]
  | insert | find =>
      obtain rfl := Option.some.inj hr'
      simp [recordsWrongCode]
  | markScanned | resolve | consume =>
      obtain rfl := Option.some.inj hr'
      split <;> simp [recordsWrongCode]
  | recordWrongCode id' =>
      obtain rfl := Option.some.inj hr'
      by_cases hscanned : r.id = id' ∧ r.status = .scanned
      · obtain ⟨rfl, hscanned⟩ := hscanned
        simp [recordsWrongCode, QrSession.withWrongCode, hr, hid, hscanned]
      · have hnot : ¬(id' = id ∧ r.status = .scanned) := fun h ↦
          hscanned ⟨hid.trans h.1.symm, h.2⟩
        simp [recordsWrongCode, hr, hscanned, hnot]

theorem QrSession.Moves.attempts_lt {now : Time} {r r' : QrSession} {q : QrSql}
    (h : r.Moves now q r') (hr : r.status ≠ .rejected → r.attempts < maxCodeAttempts)
    (hr' : r'.status ≠ .rejected) : r'.attempts < maxCodeAttempts := by
  cases h with
  | stays => exact hr hr'
  | miscoded hvalid =>
      simp only [QrSession.withWrongCode] at hr' ⊢
      split at hr'
      · exact absurd rfl hr'
      · next hlt => exact Int.not_le.mp hlt
  | scanned u hvalid => exact hr (by simp_all [QrSession.scannable])
  | resolved u target hvalid => exact hr (by simp_all [QrSession.resolvable])
  | consumed hvalid => exact hr (by simp_all [QrSession.consumable])

end Statements

/-! ## One session in a run -/

/-- A session found in a run is there from the start or has been created in it, with the same
fixed columns. -/
theorem Reached.session_origin {cx : Context} {s : Server} {c : AppConfig} {id : String}
    (hc : Reached cx s c) {e : AppEvent} (he : e ∈ c.world.history) {r : QrSession}
    (hr : e.store.db.qrSessions.get? id = some r) :
    (∃ r₀, s.db.qrSessions.get? id = some r₀ ∧ r₀.issued = r.issued) ∨
      ∃ i k hash code ip agent expires created b,
        .ran i k (.sql (.qrSessions (.insert id hash code ip agent expires created))) b ∈
          c.world.history ∧ r.issued = (hash, code, expires) := by
  by_cases hstart : sessionIs id (fun r' ↦ decide (r'.issued = r.issued)) s
  · obtain ⟨r₀, hr₀, hissued⟩ := hstart
    exact .inl ⟨r₀, hr₀, of_decide_eq_true hissued⟩
  · obtain ⟨later, earlier, hhist⟩ := List.append_of_mem he
    obtain ⟨c', hc', hworld⟩ := hc.past hhist
    obtain ⟨mid, rise, old, hold, hrise, -⟩ := hc'.rises_of_live
      (sessionIs id fun r' ↦ decide (r'.issued = r.issued)) (fun _ _ ↦ Iff.rfl) hstart
      ⟨r, by rw [hworld]; exact hr, by simp⟩
    have hmem : rise ∈ c.world.history := by
      rw [hworld] at hold
      simp only at hold
      simp [hhist, hold]
    cases rise with
    | answered i k a b => exact hrise.elim
    | ran i k q b =>
        rcases sessionIs_rises hrise with ⟨hash, code, ip, agent, expires, created, rfl, hp⟩ |
          ⟨q', r₁, r₂, rfl, -, hp, hmove, hp'⟩
        · exact .inr ⟨i, k, hash, code, ip, agent, expires, created, b, hmem,
            (of_decide_eq_true hp).symm⟩
        · rw [hmove.issued_eq, hp] at hp'
          cases hp'

section Session

variable {cx : Context} {s : Server} {c : AppConfig} {id : String} (hc : Reached cx s c)
  (hnew : s.db.qrSessions.get? id = none)
include hc hnew

/-- A session found in a run has been created in it with the same fixed columns. -/
theorem Reached.session_created {e : AppEvent} (he : e ∈ c.world.history) {r : QrSession}
    (hr : e.store.db.qrSessions.get? id = some r) :
    ∃ i k hash code ip agent expires created b,
      .ran i k (.sql (.qrSessions (.insert id hash code ip agent expires created))) b ∈
        c.world.history ∧ r.issued = (hash, code, expires) := by
  rcases hc.session_origin he hr with ⟨r₀, hr₀, -⟩ | hcreated
  · simp [hnew] at hr₀
  · exact hcreated

theorem Reached.attempts_lt {r : QrSession} (hr : c.world.store.db.qrSessions.get? id = some r)
    (hstatus : r.status ≠ .rejected) : r.attempts < maxCodeAttempts := by
  refine hc.world_induction (P := fun W ↦ ∀ r, W.store.db.qrSessions.get? id = some r →
    r.status ≠ .rejected → r.attempts < maxCodeAttempts) ?_ ?_ ?_ ?_ r hr hstatus
  · intro r hr
    simp [hnew] at hr
  · intro i k q W ih r' hr' hstatus
    cases q with
    | sql q =>
        cases q with
        | qrSessions q =>
            cases hrow : W.store.db.qrSessions.get? id with
            | none =>
                obtain ⟨_, _, _, _, _, _, -, rfl⟩ := QrSql.get?_run_none hrow hr'
                simp [maxCodeAttempts]
            | some r =>
                rw [World.ran_store, get?_exec_qrSessions hrow] at hr'
                exact (QrSql.moves_of_onRow hr').attempts_lt (ih r hrow) hstatus
        | _ => exact ih r' hr' hstatus
    | _ => exact ih r' hr' hstatus
  · exact fun i k a W ih ↦ ih
  · exact fun x W ih ↦ ih

/-- The attempts of a session are the wrong codes that have been recorded for it. -/
theorem Reached.wrongCodes_eq (honce : Once (Event.Mints Statement.Mints (.session id))
    c.world.history) {r : QrSession} (hr : c.world.store.db.qrSessions.get? id = some r) :
    (wrongCodes id c.world.history : ℤ) = r.attempts := by
  let Made (W : AppWorld) : Prop := ∃ e ∈ W.history, e.Mints Statement.Mints (.session id)
  have hmade := hc.world_induction (P := fun W ↦
    Once (Event.Mints Statement.Mints (.session id)) W.history →
      (0 < wrongCodes id W.history → Made W) ∧ ∀ r, W.store.db.qrSessions.get? id = some r →
        Made W ∧ (wrongCodes id W.history : ℤ) = r.attempts) ?_ ?_ ?_ ?_
  · exact ((hmade honce).2 r hr).2
  · intro _
    refine ⟨by simp [wrongCodes], fun r hr ↦ ?_⟩
    simp [hnew] at hr
  · intro i k q W ih honce
    obtain ⟨hfirst, hbefore⟩ := List.pairwise_cons.mp honce
    obtain ⟨hcounted, hrow⟩ := ih hbefore
    have made (h : Made W) : Made (W.ran (machine cx) i k q) := by
      obtain ⟨e, he, hmints⟩ := h
      exact ⟨e, List.mem_cons_of_mem _ he, hmints⟩
    rw [World.ran_history, wrongCodes_cons]
    by_cases hq : ∃ q', q = .sql (.qrSessions q')
    · obtain ⟨q, rfl⟩ := hq
      cases hget : W.store.db.qrSessions.get? id with
      | some r =>
          obtain ⟨hmade, hcount⟩ := hrow r hget
          refine ⟨fun _ ↦ made hmade, fun r' hr' ↦ ⟨made hmade, ?_⟩⟩
          rw [World.ran_store, get?_exec_qrSessions hget] at hr'
          rw [attempts_onRow hget hr' i k, ← hcount]
          split <;> simp
      | none =>
          have hnone : recordsWrongCode id (.ran i k (.sql (.qrSessions q)) W.store) = false := by
            cases q <;> simp [recordsWrongCode, hget]
          rw [hnone]
          refine ⟨fun hpos ↦ made (hcounted hpos), fun r' hr' ↦ ?_⟩
          -- the session is being created, so nothing was recorded for it before
          obtain ⟨_, _, _, _, _, _, rfl, rfl⟩ := QrSql.get?_run_none hget hr'
          have hzero : wrongCodes id W.history = 0 := by
            by_contra hne
            obtain ⟨e, he, hmints⟩ := hcounted (Nat.pos_of_ne_zero hne)
            exact hfirst e he ⟨hmints, rfl⟩
          exact ⟨⟨_, List.mem_cons_self, rfl⟩, by simp [hzero]⟩
    · obtain ⟨hnone, hsame⟩ := idle_of_not_qrSessions hq i k
      rw [hnone, World.ran_store, hsame]
      exact ⟨fun hpos ↦ made (hcounted hpos), fun r hr ↦ ⟨made (hrow r hr).1, (hrow r hr).2⟩⟩
  · intro i k a W ih honce
    obtain ⟨hcounted, hrow⟩ := ih (List.pairwise_cons.mp honce).2
    have made (h : Made W) : Made (W.answered i k a) := by
      obtain ⟨e, he, hmints⟩ := h
      exact ⟨e, List.mem_cons_of_mem _ he, hmints⟩
    exact ⟨fun hpos ↦ made (hcounted hpos), fun r hr ↦ ⟨made (hrow r hr).1, (hrow r hr).2⟩⟩
  · exact fun x W ih ↦ ih

variable (hdistinct : cx.DistinctDraws (.session id) c.world.store.draws)
include hdistinct

/-- The fixed columns are the same whenever the session is found. -/
theorem Reached.issued_eq {e₁ e₂ : AppEvent} (he₁ : e₁ ∈ c.world.history)
    (he₂ : e₂ ∈ c.world.history) {r₁ r₂ : QrSession}
    (hr₁ : e₁.store.db.qrSessions.get? id = some r₁)
    (hr₂ : e₂.store.db.qrSessions.get? id = some r₂) : r₁.issued = r₂.issued := by
  obtain ⟨_, _, _, _, _, _, _, _, _, hmem₁, hissued₁⟩ := hc.session_created hnew he₁ hr₁
  obtain ⟨_, _, _, _, _, _, _, _, _, hmem₂, hissued₂⟩ := hc.session_created hnew he₂ hr₂
  have heq := (hc.minted_once hdistinct).eq hmem₁ hmem₂ rfl rfl
  cases heq
  rw [hissued₁, hissued₂]

/-- A state that only creation leads to is left at most once. -/
theorem Reached.session_ends_once {p : QrSession → Bool}
    (hrise : ∀ e ∈ c.world.history, e.Ran (Rises (machine cx) (sessionIs id p)) →
      e.Mints Statement.Mints (.session id)) :
    Once (fun e ↦ sessionIs id p e.store ∧ e.Ran (Ends (machine cx) (sessionIs id p)))
      c.world.history :=
  Reachable.ends_once (sessionIs id p) (fun _ _ ↦ Iff.rfl) hc (by simp [sessionIs, hnew])
    ((hc.minted_once hdistinct).mono hrise)

end Session

/-! ## What each request does before it moves a session -/

/-- Thread `i` read the session and found `r`. -/
def FoundSession (i : ℕ) (id : String) (r : QrSession) (h : List AppEvent) : Prop :=
  ∃ k b, .ran i k (.sql (.qrSessions (.find id))) b ∈ h ∧ b.db.qrSessions.get? id = some r

/-- Thread `i` consumed the session and then read the account the token is for, live and
active, as the token has it. -/
def CollectedToken (i : ℕ) (k : Request) (id : String) (token : Claims)
    (h : List AppEvent) : Prop :=
  ∃ newer b older r, h = newer ++ .ran i k (.sql (.qrSessions (.consume id))) b :: older ∧
    b.db.qrSessions.get? id = some r ∧ r.consumable b.now = true ∧ r.userId = some token.sub ∧
      ∃ b' u, .ran i k (.sql (.users (.findById token.sub))) b' ∈ newer ∧
        b'.db.users.get? token.sub = some u ∧ u.isActive = true ∧ u.isLive = true ∧
          u.tokenVersion = token.tv ∧ u.role = token.role

def QrSteps (cx : Context) : AppEvent → List AppEvent → Prop
  | .ran _ k (.sql (.qrSessions (.markScanned id u))) _, _ =>
      ∃ claims, k = .qrScan (.bearer claims) id ∧ claims.sub = u
  | .ran i k (.sql (.qrSessions (.resolve id u .approved))) _, earlier =>
      ∃ claims r, k = .qrApprove (.bearer claims) id r.code ∧ claims.sub = u ∧
        FoundSession i id r earlier
  | .ran i k (.sql (.qrSessions (.consume id))) _, earlier =>
      ∃ secret r, k = .qrPoll id (some secret) ∧ FoundSession i id r earlier ∧
        cx.sha256 secret = r.secretHash
  | .answered i (.qrPoll id secret) (.ok (.qrPolled ⟨_, some token⟩)) _, earlier =>
      CollectedToken i (.qrPoll id secret) id token.accessToken earlier
  | _, _ => True

section

variable {cx : Context} {i : ℕ} {k : Request} {W : AppWorld}

theorem qrSteps_of_effect {q : Statement} (hs : q.effect ≠ .scanQr)
    (ha : q.effect ≠ .resolveQr .approved) (hc : q.effect ≠ .consumeQr) (i : ℕ) (k : Request)
    (b : Server) (h : List AppEvent) : QrSteps cx (.ran i k q b) h := by
  unfold QrSteps
  split
  next heq => cases heq; exact absurd rfl hs
  next heq => cases heq; exact absurd rfl ha
  next heq => cases heq; exact absurd rfl hc
  next heq => cases heq
  next => trivial

theorem quiet_qrSteps : Quiet cx (.along (QrSteps cx)) :=
  quiet_along fun q hq i k b h ↦
    qrSteps_of_effect (by simp [hq]) (by simp [hq]) (by simp [hq]) i k b h

theorem wp_findLive {id : String} {Q : QrSession → AppWorld → Prop}
    {E : AppError → AppWorld → Prop} (hE : ∀ e W, (Discipline.along (QrSteps cx)).Inv W → E e W)
    (hQ : ∀ r W, (Discipline.along (QrSteps cx)).Inv W → FoundSession i id r W.history → Q r W) :
    wp (machine cx) (.along (QrSteps cx)) i k (QrLoginService.findLive id) Q E W := by
  refine wp_bind.mpr (wp_bind.mpr (wp_read hE quiet_qrSteps rfl fun W₁ found _ hfound hInv ↦ ?_))
  refine wp_unwrap hE hInv fun r hr ↦ ?_
  have hget : W₁.store.db.qrSessions.get? id = some r := (Option.some.inj hfound).trans hr
  refine wp_bind.mpr (wp_clock quiet_qrSteps fun W₂ h₂ hInv ↦ wp_bind.mpr ?_)
  refine wp_check hE hInv fun _ ↦ hQ r _ hInv ⟨k, W₁.store, ?_, hget⟩
  exact List.mem_cons_of_mem _ (h₂.mem List.mem_cons_self)

theorem qrSteps_error (e : AppError) (i : ℕ) (k : Request) (W : AppWorld) :
    Answers (.along (QrSteps cx)) i k (.error e) W := fun W' hW' ↦
  Discipline.keeps_along_answered.mpr ⟨by cases k <;> trivial, hW'.inv⟩

theorem handles_qrScan (caller : Presented) (id : String) :
    Handles (machine cx) (.along (QrSteps cx)) (.qrScan caller id) (handle cx) := by
  have hE : ∀ {i : ℕ} (e : AppError) (W : AppWorld), (Discipline.along (QrSteps cx)).Inv W →
      Answers (.along (QrSteps cx)) i (.qrScan caller id) (.error e) W :=
    fun e W _ ↦ qrSteps_error e _ _ W
  intro i W hW _
  refine wp_bind.mpr (wp_sessionUser quiet_qrSteps hE hW fun claims W₁ u hcaller _ _ _ _ ↦ ?_)
  subst hcaller
  refine wp_bind.mpr (wp_bind.mpr (wp_findLive hE fun r W₂ hW₂ _ ↦ wp_bind.mpr ?_))
  have done : ∀ (resp : ScanResponse) (W : AppWorld), (Discipline.along (QrSteps cx)).Inv W →
      Answers (.along (QrSteps cx)) i (.qrScan (.bearer claims) id) (.ok (.qrScanned resp)) W :=
    fun resp W _ W' hW' ↦ Discipline.keeps_along_answered.mpr ⟨trivial, hW'.inv⟩
  unfold QrLoginService.claimScan
  split
  · refine wp_bind.mpr (wp_sql hE (fun W₃ h₃ ↦ ?_) fun W₃ marked h₃ _ hInv ↦ ?_)
    · exact Discipline.keeps_along_ran.mpr ⟨⟨claims, rfl, rfl⟩, h₃.inv⟩
    · split
      · exact done _ _ hInv
      · exact wp_bind.mpr (wp_findLive hE fun r' W₄ hW₄ _ ↦ wp_check hE hW₄ fun _ ↦ done _ _ hW₄)
  · exact wp_check hE hW₂ fun _ ↦ done _ _ hW₂
  · exact hE _ _ hW₂
  · exact hE _ _ hW₂

theorem handles_qrApprove (caller : Presented) (id code : String) :
    Handles (machine cx) (.along (QrSteps cx)) (.qrApprove caller id code) (handle cx) := by
  have hE : ∀ {i : ℕ} (e : AppError) (W : AppWorld), (Discipline.along (QrSteps cx)).Inv W →
      Answers (.along (QrSteps cx)) i (.qrApprove caller id code) (.error e) W :=
    fun e W _ ↦ qrSteps_error e _ _ W
  intro i W hW _
  refine wp_bind.mpr (wp_sessionUser quiet_qrSteps hE hW fun claims W₁ u hcaller _ _ _ _ ↦ ?_)
  subst hcaller
  refine wp_bind.mpr (wp_bind.mpr (wp_findLive hE fun r W₂ hW₂ hfound ↦ wp_bind.mpr ?_))
  refine wp_check hE hW₂ fun _ ↦ ?_
  have done : ∀ (W : AppWorld), (Discipline.along (QrSteps cx)).Inv W →
      Answers (.along (QrSteps cx)) i (.qrApprove (.bearer claims) id code)
        (.ok (.message "Login approved.")) W :=
    fun W _ W' hW' ↦ Discipline.keeps_along_answered.mpr ⟨trivial, hW'.inv⟩
  split
  · refine wp_bind.mpr (wp_sql hE (fun W₃ h₃ ↦ ?_) fun W₃ _ _ _ hInv ↦ hE _ _ hInv)
    exact Discipline.keeps_along_ran.mpr ⟨trivial, h₃.inv⟩
  · next hcode =>
    obtain rfl : r.code = code := not_not.mp hcode
    refine wp_bind.mpr (wp_sql hE (fun W₃ h₃ ↦ ?_) fun W₃ resolved _ _ hInv ↦ ?_)
    · obtain ⟨k', b, hmem, hget⟩ := hfound
      exact Discipline.keeps_along_ran.mpr
        ⟨⟨claims, r, rfl, rfl, k', b, h₃.mem hmem, hget⟩, h₃.inv⟩
    · exact wp_check hE hInv fun _ ↦ done _ hInv

theorem handles_qrPoll (id : String) (presented : Option String) :
    Handles (machine cx) (.along (QrSteps cx)) (.qrPoll id presented) (handle cx) := by
  have hE : ∀ {i : ℕ} (e : AppError) (W : AppWorld), (Discipline.along (QrSteps cx)).Inv W →
      Answers (.along (QrSteps cx)) i (.qrPoll id presented) (.error e) W :=
    fun e W _ ↦ qrSteps_error e _ _ W
  intro i W hW _
  have done : ∀ (status : String) (W : AppWorld), (Discipline.along (QrSteps cx)).Inv W →
      Answers (.along (QrSteps cx)) i (.qrPoll id presented)
        (.ok (.qrPolled (QrLoginService.ofStatus status))) W :=
    fun status W _ W' hW' ↦ Discipline.keeps_along_answered.mpr ⟨trivial, hW'.inv⟩
  refine wp_bind.mpr (wp_bind.mpr (wp_bind.mpr (wp_read hE quiet_qrSteps rfl
    fun W₁ found _ hfound hInv ↦ wp_unwrap hE hInv fun r hr ↦ ?_)))
  have hget : W₁.store.db.qrSessions.get? id = some r := (Option.some.inj hfound).trans hr
  refine wp_bind.mpr (wp_check hE hInv fun hsecret ↦ ?_)
  split
  · exact done _ _ hInv
  · exact done _ _ hInv
  · refine wp_bind.mpr (wp_clock quiet_qrSteps fun W₂ h₂ hInv ↦ ?_)
    split
    · exact done _ _ hInv
    split
    · refine wp_bind.mpr (wp_sql hE (fun W₃ h₃ ↦ ?_) fun W₃ consumed h₃ hconsumed hInv ↦ ?_)
      · obtain ⟨secret, rfl, hhash⟩ := Option.map_eq_some_iff.mp hsecret
        refine Discipline.keeps_along_ran.mpr ⟨⟨secret, r, rfl,
          ⟨.qrPoll id (some secret), W₁.store, ?_, hget⟩, hhash⟩, h₃.inv⟩
        exact h₃.mem (List.mem_cons_of_mem _ (h₂.mem List.mem_cons_self))
      · cases consumed with
        | none => exact done _ _ hInv
        | some u =>
            obtain ⟨r₃, hget₃, hvalid, hu⟩ := QrSql.consume_eq_some hconsumed
            dsimp only
            rw [← Prog.bind_assoc]
            refine wp_bind.mpr (wp_findUser hE quiet_qrSteps
              fun W₄ user h₄ huser hid hlive hactive hInv ↦ ?_)
            refine wp_bind.mpr (wp_check hE hInv fun _ ↦ wp_bind.mpr (wp_bind.mpr ?_))
            refine wp_clock quiet_qrSteps fun W₅ h₅ _ W₆ h₆ ↦ ?_
            refine Discipline.keeps_along_answered.mpr ⟨?_, h₆.inv⟩
            obtain ⟨new₄, hnew₄, -⟩ := h₄.others
            obtain ⟨new₅, hnew₅, -⟩ := h₅.others
            obtain ⟨new₆, hnew₆, -⟩ := h₆.others
            refine ⟨new₆ ++ .ran i (.qrPoll id presented) .clock W₅.store :: (new₅ ++
              .ran i (.qrPoll id presented) (.sql (.users (.findById u))) W₄.store :: new₄),
              W₃.store, W₃.history, r₃, by simp [hnew₆, hnew₅, hnew₄], hget₃, hvalid, hid ▸ hu,
              W₄.store, user, ?_, ?_, hactive, hlive, rfl, rfl⟩
            · simp [hid]
            · simpa [hid] using huser
    · exact done _ _ hInv

theorem handles_qrSteps (k : Request) :
    Handles (machine cx) (.along (QrSteps cx)) k (handle cx) := by
  by_cases hk : Effect.scanQr ∈ k.effects ∨ Effect.resolveQr .approved ∈ k.effects ∨
      Effect.consumeQr ∈ k.effects
  · cases k with
    | qrScan caller id => exact handles_qrScan caller id
    | qrApprove caller id code => exact handles_qrApprove caller id code
    | qrPoll id secret => exact handles_qrPoll id secret
    | _ => simp at hk
  · simp only [not_or] at hk
    refine .along_of_only (S := fun q ↦ q.effect ≠ .scanQr ∧ q.effect ≠ .resolveQr .approved ∧
      q.effect ≠ .consumeQr) (handle_only k fun q hq ↦ ⟨fun h ↦ hk.1 ?_, fun h ↦ hk.2.1 ?_,
        fun h ↦ hk.2.2 ?_⟩)
      (fun q hq i b h ↦ qrSteps_of_effect hq.1 hq.2.1 hq.2.2 i k b h) fun i a b h ↦ ?_
    · simpa [h] using hq
    · simpa [h] using hq
    · simpa [h] using hq
    · cases k with
      | qrPoll id secret => simp at hk
      | _ => trivial

end

/-! ## All runs -/

/-- A poll of the session is answered with an access token. -/
def answersToken (id : String) : AppEvent → Bool
  | .answered _ (.qrPoll id' _) (.ok (.qrPolled ⟨_, some _⟩)) _ => decide (id' = id)
  | _ => false

/-- The event moved the session from pending to scanned. -/
def MovesToScanned (cx : Context) (id : String) (e : AppEvent) : Prop :=
  e.Ran fun q s ↦ sessionIs id QrSession.isPending s ∧
    sessionIs id (fun r ↦ decide (r.status = .scanned)) ((machine cx).exec q s).2

/-- A scan by `u` that found the session pending and not expired. -/
def ScannedBy (id : String) (u : Uuid) (issued : String × String × Time) (e : AppEvent) : Prop :=
  ∃ i claims b r, e = .ran i (.qrScan (.bearer claims) id)
    (.sql (.qrSessions (.markScanned id u))) b ∧
    claims.sub = u ∧ b.db.qrSessions.get? id = some r ∧ r.issued = issued ∧
      r.status = .pending ∧ b.now < r.expiresAt

/-- An approval by `u` with the session's code, while `u` had scanned it, it was not expired
and fewer than `MAX_CODE_ATTEMPTS` wrong codes were recorded. -/
def ApprovedBy (id : String) (u : Uuid) (issued : String × String × Time) (e : AppEvent) : Prop :=
  ∃ i claims b r, e = .ran i (.qrApprove (.bearer claims) id r.code)
      (.sql (.qrSessions (.resolve id u .approved))) b ∧
    claims.sub = u ∧ b.db.qrSessions.get? id = some r ∧ r.issued = issued ∧
      r.status = .scanned ∧ r.userId = some u ∧ r.attempts < maxCodeAttempts ∧ b.now < r.expiresAt

/-- Thread `i` collected the session approved by `u`, presenting its secret before it expired. -/
def CollectedFor (cx : Context) (i : ℕ) (id secret : String) (u : Uuid)
    (issued : String × String × Time) (e : AppEvent) : Prop :=
  ∃ b r, e = .ran i (.qrPoll id (some secret)) (.sql (.qrSessions (.consume id))) b ∧
    b.db.qrSessions.get? id = some r ∧ r.issued = issued ∧ cx.sha256 secret = r.secretHash ∧
      r.status = .approved ∧ r.userId = some u ∧ b.now < r.expiresAt

/-- Thread `i` read the account the token is issued from, which was active. -/
def IssuedFrom (i : ℕ) (token : Claims) (e : AppEvent) : Prop :=
  ∃ k b u, e = .ran i k (.sql (.users (.findById token.sub))) b ∧
    b.db.users.get? token.sub = some u ∧ u.isActive = true ∧ u.isLive = true ∧
      u.tokenVersion = token.tv ∧ u.role = token.role

/-- At most one poll gets a token, and only the one that shows the secret, for the one user
who scanned the session and then approved it with its code, after fewer than
`MAX_CODE_ATTEMPTS` wrong codes, in time and active to the end. -/
def SignsInAsApproved (cx : Context) (id : String) (h : List AppEvent) : Prop :=
  Once (fun e ↦ answersToken id e = true) h ∧
    ∀ i presented status token b, .answered i (.qrPoll id presented)
        (.ok (.qrPolled ⟨status, some token⟩)) b ∈ h →
      ∃ secret issued read collect approve scan, presented = some secret ∧
        [.answered i (.qrPoll id presented) (.ok (.qrPolled ⟨status, some token⟩)) b, read,
          collect, approve, scan].Sublist h ∧
        IssuedFrom i token.accessToken read ∧
        CollectedFor cx i id secret token.accessToken.sub issued collect ∧
        ApprovedBy id token.accessToken.sub issued approve ∧
        (∀ later earlier, h = later ++ approve :: earlier →
          (wrongCodes id earlier : ℤ) < maxCodeAttempts) ∧
        ScannedBy id token.accessToken.sub issued scan ∧
        ∀ e ∈ h, MovesToScanned cx id e → e = scan

section Session

variable {cx : Context} {s : Server} {c : AppConfig} {id : String}

theorem ends_open_of_consumable (cx : Context) {r : QrSession}
    (hr : s.db.qrSessions.get? id = some r) (hvalid : r.consumable s.now = true) :
    sessionIs id QrSession.isOpen s ∧
      Ends (machine cx) (sessionIs id QrSession.isOpen) (.sql (.qrSessions (.consume id))) s := by
  refine ⟨⟨r, hr, ?_⟩, ?_⟩
  · simp_all [QrSession.consumable, QrSession.isOpen]
  · rintro ⟨r', hr', hopen⟩
    have hid : r.id = id := Table.key_of_get? hr
    rw [get?_exec_qrSessions hr] at hr'
    simp only [QrSql.onRow, hid, hvalid, Option.some.injEq] at hr'
    subst hr'
    simp [QrSession.isOpen] at hopen

theorem movesToScanned_of_scannable {r : QrSession} {u : Uuid} {i : ℕ} {k : Request}
    (hr : s.db.qrSessions.get? id = some r) (hpending : r.status = .pending)
    (hlive : s.now < r.expiresAt) :
    MovesToScanned cx id (.ran i k (.sql (.qrSessions (.markScanned id u))) s) := by
  have hid : r.id = id := Table.key_of_get? hr
  refine ⟨⟨r, hr, by simp [QrSession.isPending, hpending]⟩, _, get?_exec_qrSessions hr _, ?_⟩
  simp [QrSession.scannable, hid, hpending, hlive]

variable (hc : Reached cx s c) (hnew : s.db.qrSessions.get? id = none)
  (hdistinct : cx.DistinctDraws (.session id) c.world.store.draws)
include hc hnew hdistinct

theorem Reached.scanned_once : Once (MovesToScanned cx id) c.world.history := by
  refine (hc.session_ends_once hnew hdistinct (p := QrSession.isPending) fun e he hrise ↦ ?_).mono
    fun e he hmove ↦ ?_
  · cases e with
    | answered => exact hrise.elim
    | ran i k q b =>
        refine mints_of_pending_rises (fun heq ↦ ?_) hrise
        have hmem := hc.effect_mem he
        rw [heq] at hmem
        cases k <;> simp at hmem
  · cases e with
    | answered => exact hmove.elim
    | ran i k q b =>
        obtain ⟨hpending, r, hr, hscanned⟩ := hmove
        refine ⟨hpending, ?_⟩
        rintro ⟨r', hr', hpending'⟩
        obtain rfl : r = r' := Option.some.inj (hr.symm.trans hr')
        simp_all [QrSession.isPending]

theorem Reached.consumed_once :
    Once (fun e ↦ e.Ran fun q b ↦ q = .sql (.qrSessions (.consume id)) ∧
      sessionIs id (QrSession.consumable b.now) b) c.world.history := by
  refine (hc.session_ends_once hnew hdistinct (p := QrSession.isOpen) fun e _ hrise ↦ ?_).mono
    fun e _ hconsume ↦ ?_
  · cases e with
    | answered => exact hrise.elim
    | ran i k q b => exact mints_of_open_rises hrise
  · cases e with
    | answered => exact hconsume.elim
    | ran i k q b =>
        obtain ⟨rfl, r, hr, hvalid⟩ := hconsume
        exact ends_open_of_consumable cx hr hvalid

theorem Reached.token_once : Once (fun e ↦ answersToken id e = true) c.world.history := by
  refine pairwise_of_split fun later e₂ mid e₁ earlier hhist ↦ ?_
  rintro ⟨h₁, h₂⟩
  have hlocal := hc.along (P := QrSteps cx) fun k _ ↦ handles_qrSteps k
  have hsplit : c.world.history = (later ++ e₂ :: mid) ++ e₁ :: earlier := by simpa using hhist
  have hstep₁ : QrSteps cx e₁ earlier := Along.of_append (hsplit ▸ hlocal)
  have hstep₂ : QrSteps cx e₂ (mid ++ e₁ :: earlier) := Along.of_append (hhist ▸ hlocal)
  have hanswers := hc.answered_once
  rw [hhist] at hanswers
  have hdiffer := List.pairwise_cons.mp (List.pairwise_append.mp hanswers).2.1 |>.1 e₁ (by simp)
  unfold answersToken at h₁ h₂
  split at h₁
  next i₁ id₁ secret₁ status₁ token₁ b₁ =>
    split at h₂
    next i₂ id₂ secret₂ status₂ token₂ b₂ =>
      obtain rfl : id₁ = id := of_decide_eq_true h₁
      obtain rfl : id₂ = id₁ := of_decide_eq_true h₂
      obtain ⟨newer₁, c₁, older₁, r₁, hcut₁, hr₁, hvalid₁, -⟩ := hstep₁
      obtain ⟨newer₂, c₂, older₂, r₂, hcut₂, hr₂, hvalid₂, -⟩ := hstep₂
      have hmem₁ : .ran i₁ (.qrPoll id₂ secret₁) (.sql (.qrSessions (.consume id₂))) c₁ ∈
          c.world.history := by simp [hhist, hcut₁]
      have hmem₂ : .ran i₂ (.qrPoll id₂ secret₂) (.sql (.qrSessions (.consume id₂))) c₂ ∈
          c.world.history := by simp [hhist, hcut₂]
      have heq := (hc.consumed_once hnew hdistinct).eq hmem₁ hmem₂ ⟨rfl, r₁, hr₁, hvalid₁⟩
        ⟨rfl, r₂, hr₂, hvalid₂⟩
      cases heq
      exact hdiffer ⟨rfl, rfl, rfl⟩
    next => cases h₂
  next => cases h₁

/-- Before an approved session is found, there is its approval, and before that its scan. -/
theorem Reached.approval_before {later older : List AppEvent} {e : AppEvent}
    (hhist : c.world.history = later ++ e :: older) {u : Uuid} {r : QrSession}
    (hr : e.store.db.qrSessions.get? id = some r) (happroved : r.isApprovedFor u = true) :
    ∃ newer approve mid scan earlier, older = newer ++ approve :: (mid ++ scan :: earlier) ∧
      ApprovedBy id u r.issued approve ∧ ScannedBy id u r.issued scan := by
  have hlocal := hc.along (P := QrSteps cx) fun k _ ↦ handles_qrSteps k
  have hmem : e ∈ c.world.history := by simp [hhist]
  obtain ⟨c₁, hc₁, hworld₁⟩ := hc.past hhist
  obtain ⟨newer, approve, before, hbefore, hrise, -⟩ := hc₁.rises_of_live
    (sessionIs id (QrSession.isApprovedFor u)) (fun _ _ ↦ Iff.rfl) (by simp [sessionIs, hnew])
    ⟨r, by rw [hworld₁]; exact hr, happroved⟩
  rw [hworld₁] at hbefore
  simp only at hbefore
  subst hbefore
  cases approve with
  | answered => exact hrise.elim
  | ran i k q b =>
  obtain ⟨rfl, r₂, hr₂, hvalid₂⟩ := approve_of_rises hrise
  have hhist₂ : c.world.history = (later ++ e :: newer) ++
      .ran i k (.sql (.qrSessions (.resolve id u .approved))) b :: before := by simp [hhist]
  obtain ⟨c₂, hc₂, hworld₂⟩ := hc.past hhist₂
  simp only [QrSession.resolvable, Bool.and_eq_true, decide_eq_true_eq] at hvalid₂
  obtain ⟨⟨hscanned, huser⟩, hlive⟩ := hvalid₂
  obtain ⟨mid, scan, earlier, hearlier, hrise₂, -⟩ := hc₂.rises_of_live
    (sessionIs id (QrSession.isScannedBy u)) (fun _ _ ↦ Iff.rfl) (by simp [sessionIs, hnew])
    ⟨r₂, by rw [hworld₂]; exact hr₂, by simp [QrSession.isScannedBy, hscanned, huser]⟩
  rw [hworld₂] at hearlier
  simp only at hearlier
  subst hearlier
  cases scan with
  | answered => exact hrise₂.elim
  | ran j k' q' b' =>
      obtain ⟨rfl, r₃, hr₃, hvalid₃⟩ := scan_of_rises hrise₂
      simp only [QrSession.scannable, Bool.and_eq_true, decide_eq_true_eq] at hvalid₃
      have hhist₃ : c.world.history = (later ++ e :: newer ++
          .ran i k (.sql (.qrSessions (.resolve id u .approved))) b :: mid) ++
            .ran j k' (.sql (.qrSessions (.markScanned id u))) b' :: earlier := by simp [hhist]
      have hmem₂ : .ran i k (.sql (.qrSessions (.resolve id u .approved))) b ∈ c.world.history := by
        simp [hhist]
      have hmem₃ : .ran j k' (.sql (.qrSessions (.markScanned id u))) b' ∈ c.world.history := by
        simp [hhist]
      have hstep₂ : QrSteps cx (.ran i k (.sql (.qrSessions (.resolve id u .approved))) b) _ :=
        Along.of_append (hhist₂ ▸ hlocal)
      have hstep₃ : QrSteps cx (.ran j k' (.sql (.qrSessions (.markScanned id u))) b') _ :=
        Along.of_append (hhist₃ ▸ hlocal)
      obtain ⟨claims, found, rfl, hsub, k₀, b₀, hfind, hfound⟩ := hstep₂
      obtain ⟨claims', rfl, hsub'⟩ := hstep₃
      have hfindmem : .ran i k₀ (.sql (.qrSessions (.find id))) b₀ ∈ c.world.history := by
        rw [hhist₂]
        exact List.mem_append_right _ (List.mem_cons_of_mem _ hfind)
      have hissued₂ := hc.issued_eq hnew hdistinct hmem₂ hmem hr₂ hr
      have hissued₃ := hc.issued_eq hnew hdistinct hmem₃ hmem hr₃ hr
      have hcode : found.code = r₂.code :=
        congrArg (·.2.1) (hc.issued_eq hnew hdistinct hfindmem hmem₂ hfound hr₂)
      refine ⟨newer, _, mid, _, earlier, rfl, ?_, ?_⟩
      · refine ⟨i, claims, b, r₂, by rw [hcode], hsub, hr₂, hissued₂, hscanned, huser, ?_, hlive⟩
        exact Reached.attempts_lt hc₂ hnew (by rw [hworld₂]; exact hr₂) (by simp [hscanned])
      · exact ⟨j, claims', b', r₃, rfl, hsub', hr₃, hissued₃, hvalid₃.1, hvalid₃.2⟩

/-- An approval comes after fewer than `MAX_CODE_ATTEMPTS` wrong codes. -/
theorem Reached.wrongCodes_lt {later earlier : List AppEvent} {approve : AppEvent}
    (hhist : c.world.history = later ++ approve :: earlier) {u : Uuid}
    {issued : String × String × Time} (h : ApprovedBy id u issued approve) :
    (wrongCodes id earlier : ℤ) < maxCodeAttempts := by
  obtain ⟨i, claims, b, r, rfl, -, hr, -, -, -, hlt, -⟩ := h
  obtain ⟨c', hc', hworld⟩ := hc.past hhist
  have honce : Once (Event.Mints Statement.Mints (.session id)) earlier := by
    have hall := hc.minted_once hdistinct
    rw [hhist, List.append_cons] at hall
    exact hall.of_append
  have hcount := Reached.wrongCodes_eq hc' hnew (by rw [hworld]; exact honce)
    (by rw [hworld]; exact hr)
  rw [hworld] at hcount
  rw [hcount]
  exact hlt

theorem qr_signs_in_as_approved : SignsInAsApproved cx id c.world.history := by
  refine ⟨hc.token_once hnew hdistinct, fun i presented status token b hmem ↦ ?_⟩
  have hlocal := hc.along (P := QrSteps cx) fun k _ ↦ handles_qrSteps k
  obtain ⟨later, earlier, hhist⟩ := List.append_of_mem hmem
  have hanswer : QrSteps cx (.answered i (.qrPoll id presented)
    (.ok (.qrPolled ⟨status, some token⟩)) b) earlier := Along.of_append (hhist ▸ hlocal)
  obtain ⟨newer, bc, older, r, rfl, hr, hvalid, huser, br, user, hread, hget, hactive, hlive, htv,
    hrole⟩ := hanswer
  have hhist₁ : c.world.history = (later ++ .answered i (.qrPoll id presented)
      (.ok (.qrPolled ⟨status, some token⟩)) b :: newer) ++
        .ran i (.qrPoll id presented) (.sql (.qrSessions (.consume id))) bc :: older := by
    simp [hhist]
  have hconsume : QrSteps cx (.ran i (.qrPoll id presented) (.sql (.qrSessions (.consume id))) bc)
    older := Along.of_append (hhist₁ ▸ hlocal)
  obtain ⟨secret, found, hpresented, ⟨k₀, b₀, hfind, hfound⟩, hhash⟩ := hconsume
  obtain rfl : presented = some secret := by
    cases hpresented
    rfl
  simp only [QrSession.consumable, Bool.and_eq_true, decide_eq_true_eq] at hvalid
  obtain ⟨before, approve, mid, scan, old, rfl, happrove, hscan⟩ :=
    hc.approval_before hnew hdistinct
    hhist₁ hr (u := token.accessToken.sub) (by simp [QrSession.isApprovedFor, hvalid.1, huser])
  have hfindmem : .ran i k₀ (.sql (.qrSessions (.find id))) b₀ ∈ c.world.history := by
    rw [hhist₁]
    exact List.mem_append_right _ (List.mem_cons_of_mem _ hfind)
  have hcollectmem : .ran i (.qrPoll id (some secret)) (.sql (.qrSessions (.consume id))) bc ∈
      c.world.history := by simp [hhist]
  have hsecret : found.secretHash = r.secretHash :=
    congrArg (·.1) (hc.issued_eq hnew hdistinct hfindmem hcollectmem hfound hr)
  refine ⟨secret, r.issued, _, _, approve, scan, rfl, ?_,
    ⟨.qrPoll id (some secret), br, user, rfl, hget, hactive, hlive, htv, hrole⟩,
    ⟨bc, r, rfl, hr, rfl, hhash.trans hsecret, hvalid.1, huser, hvalid.2⟩, happrove, ?_, hscan, ?_⟩
  · obtain ⟨n₁, n₂, rfl⟩ := List.append_of_mem hread
    rw [hhist, List.append_assoc]
    exact sublist_next _ (sublist_next _ (sublist_next n₂ (sublist_next _ (sublist_next _
      (List.nil_sublist _)))))
  · exact fun _ _ hsplit ↦ hc.wrongCodes_lt hnew hdistinct hsplit happrove
  · intro e he hmove
    apply (hc.scanned_once hnew hdistinct).eq he (by simp [hhist]) hmove
    obtain ⟨j, claims, bs, rs, rfl, -, hrs, -, hpending, hunexpired⟩ := hscan
    exact movesToScanned_of_scannable hrs hpending hunexpired

end Session

namespace QrSample

open Sample

def start : Server := server (.single (account 1 "ada@example.com" .user))

def session : String := takeChars 22 (Context.sample.randomToken 0)

/-- A device asks for a session, Ada scans and approves it, and the device collects its token. -/
def schedule : List (Action Request ℕ) :=
  alone 0 (.qrCreate none none) 7 ++ alone 1 (.qrScan (bearer 1 .user) session) 5 ++
    alone 2 (.qrApprove (bearer 1 .user) session "1002") 5 ++
      alone 3 (.qrPoll session (some (Context.sample.randomToken 1))) 5

theorem distinct : ∀ m < 3, ∀ n < 3, takeChars 22 (Context.sample.randomToken m) = session →
    takeChars 22 (Context.sample.randomToken n) = session → m = n := by
  decide

end QrSample

theorem qr_signs_in_ada :
    ∃ c, Reached .sample QrSample.start c ∧ (∃ e ∈ c.world.history,
      answersToken QrSample.session e = true) ∧
        SignsInAsApproved .sample QrSample.session c.world.history := by
  obtain ⟨c, hc, htest⟩ : ∃ c, Reached .sample QrSample.start c ∧
      (c.world.history.any (answersToken QrSample.session) &&
        decide (c.world.store.draws = 3)) = true :=
    Reachable.of_schedule QrSample.schedule
      (fun c : AppConfig ↦ c.world.history.any (answersToken QrSample.session) &&
        decide (c.world.store.draws = 3)) (by decide) (by decide)
  rw [Bool.and_eq_true, decide_eq_true_eq, List.any_eq_true] at htest
  refine ⟨c, hc, htest.1, qr_signs_in_as_approved hc rfl ?_⟩
  rw [htest.2]
  exact fun m n hm hn ↦ QrSample.distinct m hm n hn

end ApiStarter
