import ApiStarter.QrSessions

/-!
# Rejecting a QR login

`reject` checks the session first and then runs a guarded `UPDATE` whose result
it does not look at.  Its success means something only if the `UPDATE` still
found the session as the check did.
-/

namespace ApiStarter

open Interleave Interleave.Prog Relational

def QrSession.notRejected (r : QrSession) : Bool := decide (r.status ≠ .rejected)
def QrSession.notConsumed (r : QrSession) : Bool := decide (r.status ≠ .consumed)

/-- A success answer of `reject` is final: the session is rejected as long as it is kept, and
no poll answered later gets a token. -/
def RejectionHolds (id : String) (W : AppWorld) : Prop :=
  ∀ later i caller response b earlier,
    W.history = later ++ .answered i (.qrReject caller id) (.ok response) b :: earlier →
      (∀ r, W.store.db.qrSessions.get? id = some r → r.status = .rejected) ∧
        ∀ e ∈ later, answersToken id e = false

section Statements

variable {cx : Context} {id : String} {s : Server}

/-- Rejected and consumed are final. -/
theorem mints_of_final_rises {p : QrSession → Bool} (hp : p = QrSession.notRejected ∨
    p = QrSession.notConsumed) {q : Statement} (h : Rises (machine cx) (sessionIs id p) q s) :
    q.Mints (.session id) := by
  rcases sessionIs_rises h with ⟨hash, code, ip, agent, expires, created, rfl, -⟩ |
    ⟨q', r, r', rfl, -, hbefore, hmove, hafter⟩
  · rfl
  · exfalso
    have hstatus : r.status = .rejected ∨ r.status = .consumed := by
      rcases hp with rfl | rfl
      · exact .inl (by simpa [QrSession.notRejected] using hbefore)
      · exact .inr (by simpa [QrSession.notConsumed] using hbefore)
    cases hmove with
    | stays => simp [hbefore] at hafter
    | scanned u hvalid => simp_all [QrSession.scannable]
    | resolved u target hvalid => simp_all [QrSession.resolvable]
    | miscoded hvalid => simp_all
    | consumed hvalid => simp_all [QrSession.consumable]

theorem ends_notRejected {r : QrSession} {u : Uuid} (hr : s.db.qrSessions.get? id = some r)
    (hvalid : r.resolvable u s.now = true ∨ r.status = .rejected) :
    Ends (machine cx) (sessionIs id QrSession.notRejected)
      (.sql (.qrSessions (.resolve id u .rejected))) s := by
  rintro ⟨r', hr', hafter⟩
  have hid : r.id = id := Table.key_of_get? hr
  rw [get?_exec_qrSessions hr] at hr'
  simp only [QrSql.onRow, hid, Option.some.injEq] at hr'
  subst hr'
  rcases hvalid with hvalid | hrejected
  · simp [hvalid, QrSession.notRejected] at hafter
  · simp [hrejected, QrSession.notRejected, QrSession.resolvable] at hafter

theorem ends_notConsumed {r : QrSession} (hr : s.db.qrSessions.get? id = some r)
    (hvalid : r.consumable s.now = true) :
    Ends (machine cx) (sessionIs id QrSession.notConsumed)
      (.sql (.qrSessions (.consume id))) s := by
  rintro ⟨r', hr', hafter⟩
  have hid : r.id = id := Table.key_of_get? hr
  rw [get?_exec_qrSessions hr] at hr'
  simp only [QrSql.onRow, hid, hvalid, Option.some.injEq] at hr'
  subst hr'
  simp [QrSession.notConsumed] at hafter

end Statements

/-! ## One rejection -/

/-- A rejection answered with success has run its `UPDATE`. -/
def RejectsBeforeAnswer : AppEvent → List AppEvent → Prop
  | .answered i (.qrReject _ id) (.ok _) _, earlier =>
      ∃ u k b, .ran i k (.sql (.qrSessions (.resolve id u .rejected))) b ∈ earlier
  | _, _ => True

theorem handles_rejectsBeforeAnswer (cx : Context) (k : Request) :
    Handles (machine cx) (.along RejectsBeforeAnswer) k (handle cx) := by
  have harmless : ∀ (q : Statement) (i : ℕ) (k : Request) (W : AppWorld),
      (Discipline.along RejectsBeforeAnswer).Inv W →
        (Discipline.along RejectsBeforeAnswer).Keeps W (W.ran (machine cx) i k q) :=
    fun q i k W hW ↦ Discipline.keeps_along_ran.mpr ⟨trivial, hW⟩
  cases k with
  | qrReject caller id =>
      have hE : ∀ {i : ℕ} (e : AppError) (W : AppWorld),
          (Discipline.along RejectsBeforeAnswer).Inv W →
            Answers (.along RejectsBeforeAnswer) i (.qrReject caller id) (.error e) W :=
        fun e W _ W' hW' ↦ Discipline.keeps_along_answered.mpr ⟨trivial, hW'.inv⟩
      intro i W hW _
      refine wp_bind.mpr (wp_of_only (S := fun _ ↦ True) (only_sessionUser (fun _ _ ↦ trivial) _ _)
        (returns_true _) (fun q _ W hW ↦ harmless q _ _ W hW) (fun actor W _ hW ↦ ?_) hE hW)
      refine wp_bind.mpr (wp_bind.mpr (wp_of_only (S := fun _ ↦ True)
        (only_findLive fun _ _ ↦ trivial) (returns_true _) (fun q _ W hW ↦ harmless q _ _ W hW)
        (fun r W _ hW ↦ ?_) hE hW))
      refine wp_bind.mpr (wp_check hE hW fun _ ↦ wp_bind.mpr ?_)
      refine wp_sql hE (fun W' hW' ↦ harmless _ _ _ W' hW'.inv) fun W₁ _ _ _ hInv W₂ h₂ ↦ ?_
      exact Discipline.keeps_along_answered.mpr
        ⟨⟨actor.id, _, W₁.store, h₂.mem List.mem_cons_self⟩, h₂.inv⟩
  | _ =>
      exact .along_of_only (S := fun _ ↦ True) (handle_only _ fun _ _ ↦ trivial)
        (fun _ _ _ _ _ ↦ trivial) fun _ _ _ _ ↦ trivial

theorem collected_of_answersToken {cx : Context} {id : String} {e : AppEvent}
    {earlier : List AppEvent} (h : answersToken id e = true) (hstep : QrSteps cx e earlier) :
    ∃ i k newer b older r,
      earlier = newer ++ .ran i k (.sql (.qrSessions (.consume id))) b :: older ∧
      b.db.qrSessions.get? id = some r ∧ r.consumable b.now = true := by
  unfold answersToken at h
  split at h
  next i id' secret status token b =>
    obtain rfl : id' = id := of_decide_eq_true h
    obtain ⟨newer, b, older, r, hcut, hr, hvalid, -⟩ := hstep
    exact ⟨i, _, newer, b, older, r, hcut, hr, hvalid⟩
  next => cases h

/-! ## All runs -/

/-- The `UPDATE` of a rejection finds the session scanned by the caller and not expired, or
rejected already. -/
def rejectsInTime (id : String) : AppEvent → Bool
  | .ran _ _ (.sql (.qrSessions (.resolve id' u .rejected))) before =>
      decide (id' ≠ id) || (before.db.qrSessions.get? id).any fun r ↦
        r.resolvable u before.now || decide (r.status = .rejected)
  | _ => true

section

variable {cx : Context} {s : Server} {c : AppConfig} {id : String} (hc : Reached cx s c)
  (hnew : s.db.qrSessions.get? id = none)
  (hdistinct : cx.DistinctDraws (.session id) c.world.store.draws)
include hc hnew hdistinct

/-- What ended for an existing session does not hold again. -/
theorem Reached.session_ended {p : QrSession → Bool}
    (hrise : ∀ q b, Rises (machine cx) (sessionIs id p) q b → q.Mints (.session id))
    {later earlier : List AppEvent} {e : AppEvent} (hhist : c.world.history = later ++ e :: earlier)
    {r : QrSession} (hr : e.store.db.qrSessions.get? id = some r)
    (hend : e.Ran (Ends (machine cx) (sessionIs id p))) :
    (∀ x ∈ later, ¬sessionIs id p x.store) ∧ ¬sessionIs id p c.world.store := by
  have honce := hc.minted_once hdistinct
  obtain ⟨c₁, hc₁, hworld₁⟩ := hc.past hhist
  obtain ⟨mid, rise, old, hold, hrise₁, -⟩ := hc₁.rises_of_live (sessionIs id fun _ ↦ true)
    (fun _ _ ↦ Iff.rfl) (by simp [sessionIs, hnew]) ⟨r, by rw [hworld₁]; exact hr, rfl⟩
  rw [hworld₁] at hold
  simp only at hold
  have hmint : rise.Mints Statement.Mints (.session id) := by
    cases rise with
    | answered => exact hrise₁.elim
    | ran i k q b =>
        rcases sessionIs_rises hrise₁ with ⟨_, _, _, _, _, _, rfl, -⟩ | ⟨_, _, _, -, -, hfalse, -⟩
        · rfl
        · cases hfalse
  have hnone : ∀ x ∈ later, ¬x.Ran (Rises (machine cx) (sessionIs id p)) := by
    intro x hx hxrise
    have hxmint : x.Mints Statement.Mints (.session id) := by
      cases x with
      | answered => exact hxrise.elim
      | ran i k q b => exact hrise q b hxrise
    rw [hhist] at honce
    exact (List.pairwise_append.mp honce).2.2 x hx rise (by simp [hold]) ⟨hmint, hxmint⟩
  refine ⟨fun x hx ↦ ?_, hc.not_live_of_ended _ (fun _ _ ↦ Iff.rfl) hhist hnone hend⟩
  obtain ⟨l₁, l₂, rfl⟩ := List.append_of_mem hx
  have hhist₂ : c.world.history = l₁ ++ x :: (l₂ ++ e :: earlier) := by simp [hhist]
  obtain ⟨c₂, hc₂, hworld₂⟩ := hc.past hhist₂
  have hdead := hc₂.not_live_of_ended (sessionIs id p) (fun _ _ ↦ Iff.rfl)
    (by rw [hworld₂]) (fun y hy ↦ hnone y (by simp [hy])) hend
  rwa [hworld₂] at hdead

theorem rejection_holds (htime : ∀ e ∈ c.world.history, rejectsInTime id e = true) :
    RejectionHolds id c.world := by
  intro later i caller response b earlier hhist
  have hreject : RejectsBeforeAnswer (.answered i (.qrReject caller id) (.ok response) b) earlier :=
    Along.of_append (hhist ▸ hc.along fun k _ ↦ handles_rejectsBeforeAnswer cx k)
  obtain ⟨u, k, bu, hmem⟩ := hreject
  obtain ⟨mid, old, rfl⟩ := List.append_of_mem hmem
  have hsplit : c.world.history =
    (later ++ .answered i (.qrReject caller id) (.ok response) b :: mid) ++
      .ran i k (.sql (.qrSessions (.resolve id u .rejected))) bu :: old := by simp [hhist]
  obtain ⟨r, hr, hvalid⟩ : ∃ r, bu.db.qrSessions.get? id = some r ∧
      (r.resolvable u bu.now = true ∨ r.status = .rejected) := by
    have := htime (.ran i k (.sql (.qrSessions (.resolve id u .rejected))) bu) (by simp [hhist])
    simpa [rejectsInTime, Option.any_eq_true] using this
  obtain ⟨hafter, hnow⟩ := hc.session_ended hnew hdistinct
    (fun q b ↦ mints_of_final_rises (.inl rfl)) hsplit hr (ends_notRejected hr hvalid)
  refine ⟨fun r' hr' ↦ ?_, fun e he ↦ ?_⟩
  · by_contra hne
    exact hnow ⟨r', hr', by simpa [QrSession.notRejected] using hne⟩
  · by_contra htoken
    obtain ⟨l₁, l₂, rfl⟩ := List.append_of_mem he
    have hhist₂ : c.world.history = l₁ ++ e :: (l₂ ++
        .answered i (.qrReject caller id) (.ok response) b ::
          (mid ++ .ran i k (.sql (.qrSessions (.resolve id u .rejected))) bu :: old)) := by
      simp [hhist]
    have hstep : QrSteps cx e _ :=
      Along.of_append (hhist₂ ▸ hc.along (P := QrSteps cx) fun k _ ↦ handles_qrSteps k)
    obtain ⟨j, k', newer, bc, older, rc, hcut, hrc, hconsumable⟩ :=
      collected_of_answersToken (Bool.not_eq_false _ ▸ htoken) hstep
    have happroved : rc.status = .approved := by
      simp only [QrSession.consumable, Bool.and_eq_true, decide_eq_true_eq] at hconsumable
      exact hconsumable.1
    have hmem₂ : .ran j k' (.sql (.qrSessions (.consume id))) bc ∈ (l₂ ++
        .answered i (.qrReject caller id) (.ok response) b :: mid) ++
          .ran i k (.sql (.qrSessions (.resolve id u .rejected))) bu :: old := by
      rw [List.append_assoc, List.cons_append, hcut]
      simp
    rcases List.mem_append.mp hmem₂ with hlate | hearly
    · -- the session was rejected by then
      refine hafter (.ran j k' (.sql (.qrSessions (.consume id))) bc) (by simp_all)
        ⟨rc, hrc, by simp [QrSession.notRejected, happroved]⟩
    · -- the session was consumed before the rejection looked at it
      obtain ⟨o₁, o₂, rfl⟩ := List.append_of_mem
        ((List.mem_cons.mp hearly).resolve_left (by rintro ⟨⟩))
      have hhist₃ : c.world.history = (l₁ ++ e :: l₂ ++
          .answered i (.qrReject caller id) (.ok response) b :: mid ++ .ran i k
            (.sql (.qrSessions (.resolve id u .rejected))) bu :: o₁) ++
            .ran j k' (.sql (.qrSessions (.consume id))) bc :: o₂ := by simp [hsplit]
      have hdead := (hc.session_ended hnew hdistinct (fun q b ↦ mints_of_final_rises (.inr rfl))
        hhist₃ hrc (ends_notConsumed hrc hconsumable)).1
      refine hdead (.ran i k (.sql (.qrSessions (.resolve id u .rejected))) bu) (by simp)
        ⟨r, hr, ?_⟩
      simp only [QrSession.resolvable, Bool.and_eq_true, decide_eq_true_eq] at hvalid
      rcases hvalid with hvalid | hrejected
      · simp [QrSession.notConsumed, hvalid.1.1]
      · simp [QrSession.notConsumed, hrejected]

end

/-! ## A rejection overtaken by the approval -/

def Request.usesQr : Request → Bool
  | .qrCreate .. | .qrScan .. | .qrApprove .. | .qrReject .. | .qrPoll .. => true
  | _ => false

namespace QrSample

open Sample

/-- A device asks for a session and Ada scans it. -/
def scanned : List (Action Request ℕ) :=
  alone 0 (.qrCreate none none) 7 ++ alone 1 (.qrScan (bearer 1 .user) session) 5

/-- The rejection has looked at the session when the approval comes. -/
def overtaken : List (Action Request ℕ) :=
  scanned ++ .start (.qrReject (bearer 1 .user) session) :: List.replicate 4 (.run 2) ++
    alone 3 (.qrApprove (bearer 1 .user) session "1002") 5 ++ [.run 2, .answer 2] ++
      alone 4 (.qrPoll session (some (Context.sample.randomToken 1))) 5

/-- The rejection follows at once. -/
def rejected : List (Action Request ℕ) :=
  scanned ++ alone 2 (.qrReject (bearer 1 .user) session) 5

def rejects : AppEvent → Bool
  | .answered _ (.qrReject _ id) (.ok _) _ => decide (id = session)
  | _ => false

theorem answered_of_rejects {e : AppEvent} (h : rejects e = true) :
    ∃ i caller response b, e = .answered i (.qrReject caller session) (.ok response) b := by
  unfold rejects at h
  split at h
  next i caller id response b =>
    obtain rfl := of_decide_eq_true h
    exact ⟨i, caller, response, b, rfl⟩
  next => cases h

end QrSample

theorem rejection_holds_undisturbed :
    ∃ c, Reached .sample QrSample.start c ∧ (∃ e ∈ c.world.history, ∃ i caller response b,
      e = .answered i (.qrReject caller QrSample.session) (.ok response) b) ∧
        RejectionHolds QrSample.session c.world := by
  let test : AppConfig → Bool := fun c ↦ decide (c.world.store.draws = 3) &&
    c.world.history.all (rejectsInTime QrSample.session) && c.world.history.any QrSample.rejects
  obtain ⟨c, hc, htest⟩ : ∃ c, Reached .sample QrSample.start c ∧ test c = true :=
    Reachable.of_schedule QrSample.rejected test (by decide) (by decide)
  simp only [test, Bool.and_eq_true, decide_eq_true_eq, List.all_eq_true, List.any_eq_true] at htest
  obtain ⟨⟨hdraws, htime⟩, e, he, hanswer⟩ := htest
  refine ⟨c, hc, ⟨e, he, ?_⟩, rejection_holds hc rfl ?_ htime⟩
  · exact QrSample.answered_of_rejects hanswer
  · rw [hdraws]
    exact fun m n hm hn ↦ QrSample.distinct m hm n hn

/-- A success answer of `reject` can be followed by a poll that gets a token. -/
theorem rejected_session_can_sign_in :
    ¬∀ (cx : Context) (s : Server) (c : AppConfig) (id : String),
      Reachable (machine cx) (handle cx) (fun k ↦ k.usesQr = true) s c →
        s.db.qrSessions.get? id = none → cx.DistinctDraws (.session id) c.world.store.draws →
          RejectionHolds id c.world := by
  intro h
  let test : AppConfig → Bool := fun c ↦ decide (c.world.store.draws = 3) &&
    c.world.history.head?.any (answersToken QrSample.session) &&
      c.world.history.tail.any QrSample.rejects
  obtain ⟨c, hc, htest⟩ : ∃ c, Reachable (machine .sample) (handle .sample)
      (fun k ↦ k.usesQr = true) QrSample.start c ∧ test c = true :=
    Reachable.of_schedule QrSample.overtaken test (by decide) (by decide)
  simp only [test, Bool.and_eq_true, decide_eq_true_eq, List.any_eq_true] at htest
  obtain ⟨⟨hdraws, htoken⟩, e, he, hanswer⟩ := htest
  have hholds := h .sample _ c QrSample.session hc rfl (by
    rw [hdraws]
    exact fun m n hm hn ↦ QrSample.distinct m hm n hn)
  obtain ⟨i, caller, response, b, rfl⟩ := QrSample.answered_of_rejects hanswer
  obtain ⟨mid, earlier, htail⟩ := List.append_of_mem he
  cases hhist : c.world.history with
  | nil => simp [hhist] at he
  | cons last rest =>
      simp only [hhist, List.tail_cons] at htail
      have hfinal := (hholds (last :: mid) i caller response b earlier (by simp [hhist, htail])).2
        last List.mem_cons_self
      simp [hhist, hfinal] at htoken

end ApiStarter
