import ApiStarter.StoredSecrets
import ApiStarter.TimelyHandlers

/-!
# The cleanup goes unnoticed

One schedule is run twice, with and without the turns of its cleanups.  In
between two turns the stores differ in overdue rows only, and every request
stands at the same point of its handler in both runs, unless it looked up a QR
session that the cleanup has deleted.
-/

namespace ApiStarter

open Interleave Interleave.Prog Relational

@[reducible] def Statement.isClock : Statement → Bool
  | .clock => true
  | _ => false

@[reducible] def Request.isCleanup : Request → Bool
  | .cleanup => true
  | _ => false

section Runs

variable (cx : Context) (s : Server) (ts : List (Turn Request ℕ))

/-- The run of a schedule in which every request takes its turns. -/
def cleanedRun : AppConfig :=
  (Config.initial s).turns (machine cx) (handle cx) Statement.isClock (fun _ ↦ true) ts

/-- The run of the same schedule in which the cleanups never run. -/
def uncleanedRun : AppConfig :=
  (Config.initial s).turns (machine cx) (handle cx) Statement.isClock (fun k ↦ !k.isCleanup) ts

end Runs

/-- Thread `i` found a QR session that had expired more than an hour ago. -/
def FoundOverdue (i : ℕ) (h : List AppEvent) : Prop :=
  ∃ k id b r, .ran i k (.sql (.qrSessions (.find id))) b ∈ h ∧
    b.db.qrSessions.get? id = some r ∧ Overdue b.now r.expiresAt

theorem FoundOverdue.mono {i : ℕ} {h h' : List AppEvent} (hsuffix : h <:+ h')
    (hfound : FoundOverdue i h) : FoundOverdue i h' := by
  obtain ⟨k, id, b, r, hmem, hr, hover⟩ := hfound
  exact ⟨k, id, b, r, hsuffix.subset hmem, hr, hover⟩

/-! ## One thread in both runs -/

/-- How thread `i` stands in the run without and in the run with cleanups, at the instant `now`
and after the history `h` of the former. -/
inductive Twin (h : List AppEvent) (now : Time) (i : ℕ) :
    Thread Statement.Res Request AppError Response →
      Thread Statement.Res Request AppError Response → Prop
  | same {k : Request} {p : Req Response} (hk : k.isCleanup = false)
      (hp : ∀ t, now ≤ t → Steady (SeenToEnd h) t p) : Twin h now i ⟨k, some p⟩ ⟨k, some p⟩
  | cut {k : Request} : Twin h now i ⟨k, none⟩ ⟨k, none⟩
  | lost {k : Request} {p : Req Response} (hk : k.isCleanup = false)
      (hp : ∀ t, now ≤ t → Timely (fun _ _ ↦ False) t p) (hfound : FoundOverdue i h) :
      Twin h now i ⟨k, some p⟩ ⟨k, some (.fail QrError.notFound.into)⟩
  | sweeping {p p' : Option (Req Response)}
      (hp' : ∀ q, p' = some q → ∀ t, now ≤ t → Timely Statement.Sweeps t q) :
      Twin h now i ⟨.cleanup, p⟩ ⟨.cleanup, p'⟩

theorem Twin.mono {h h' : List AppEvent} {now now' : Time} {i : ℕ}
    {x y : Thread Statement.Res Request AppError Response} (htwin : Twin h now i x y)
    (hsuffix : h <:+ h') (hle : now ≤ now') : Twin h' now' i x y := by
  cases htwin with
  | same hk hp =>
      refine .same hk fun t ht ↦ ?_
      exact (hp t (hle.trans ht)).mono fun id e hseen ↦ hseen.mono hsuffix
  | cut => exact .cut
  | lost hk hp hfound => exact .lost hk (fun t ht ↦ hp t (hle.trans ht)) (hfound.mono hsuffix)
  | sweeping hp' => exact .sweeping fun q hq t ht ↦ hp' q hq t (hle.trans ht)

section Bursts

variable {cx : Context} {faulty : Bool} {i : ℕ} {k : Request} {t : Time} {A B : AppWorld}

/-- One burst of a request that stands at the same point in both runs. -/
theorem Steady.burst {ends : String → Time → Prop} {p : Req Response} (hp : Steady ends t p)
    (hk : k.isCleanup = false) (ht : A.store.now = t) (hstores : Thinned A.store B.store)
    (hends : ∀ id e, ends id e → SeenToEnd A.history id e)
    (hfree : Along KeysFree
      (p.burst (machine cx) Statement.isClock faulty i k A).2.history) :
    Thinned (p.burst (machine cx) Statement.isClock faulty i k A).2.store
        (p.burst (machine cx) Statement.isClock faulty i k B).2.store ∧
      Twin (p.burst (machine cx) Statement.isClock faulty i k A).2.history t i
        ⟨k, some (p.burst (machine cx) Statement.isClock faulty i k A).1⟩
        ⟨k, some (p.burst (machine cx) Statement.isClock faulty i k B).1⟩ := by
  induction hp generalizing A B with
  | ret a => exact ⟨hstores, .same hk fun _ _ ↦ .ret a⟩
  | fail e => exact ⟨hstores, .same hk fun _ _ ↦ .fail e⟩
  | @clock ends t next _ ih =>
      have hnext : next B.store.now = next A.store.now := by rw [hstores.now]
      rw [Prog.burst_local rfl] at hfree ⊢
      rw [Prog.burst_local rfl]
      simp only [exec_clock, hnext] at hfree ⊢
      rw [ht] at hfree ⊢
      refine ih (A := A.ran (machine cx) i k .clock) (B := B.ran (machine cx) i k .clock) ht hstores
        (fun id e he ↦ (hends id e he).mono (List.suffix_cons _ _)) hfree
  | @stmt ends t q next hq hnext ih =>
      have hlocal : q.isClock = false := by
        cases q <;> first | rfl | exact hq.elim
      have hseen {h' : List AppEvent} (hsuffix : A.history <:+ h') (r : q.Res) (t' : Time)
          (hle : t ≤ t') : Steady (SeenToEnd h') t' (next r) :=
        (hnext r t' hle).mono fun id e he ↦ (hends id e he).mono hsuffix
      cases hfail : (machine cx).failure faulty q with
      | some r =>
          simp only [Prog.burst_failed hlocal hfail]
          exact ⟨hstores, .same hk (hseen (List.suffix_refl _) r)⟩
      | none =>
          simp only [Prog.burst_shared hlocal hfail] at hfree ⊢
          obtain ⟨hfresh, hknown⟩ := hfree.1
          obtain ⟨hsame, hthin⟩ := hstores.exec cx
            (fun id e he s hs ↦ hknown id e (hends id e he) s hs) (ht.symm ▸ hq) hfresh
          rw [hsame]
          exact ⟨hthin, .same hk (hseen (List.suffix_cons _ _) _)⟩
  | @find ends t id next hfault hnone hsome hover _ _ =>
      have hlocal : (Statement.sql (.qrSessions (.find id))).isClock = false := rfl
      cases hfail : (machine cx).failure faulty (.sql (.qrSessions (.find id))) with
      | some r =>
          simp only [Prog.burst_failed hlocal hfail]
          obtain rfl : none = r := Option.some.inj (fault_of_failure hfail)
          refine ⟨hstores, .same hk fun t' hle ↦ ?_⟩
          exact (hfault t' hle).mono hends
      | none =>
          simp only [Prog.burst_shared hlocal hfail]
          refine ⟨hstores, ?_⟩
          change Twin _ t i ⟨k, some (next (some (A.store.db.qrSessions.get? id)))⟩
            ⟨k, some (next (some (B.store.db.qrSessions.get? id)))⟩
          rcases hstores.qrSessions.get?_eq_or id with hsame | ⟨hgone, r, hr, hlate⟩
          · rw [hsame]
            cases hr : A.store.db.qrSessions.get? id with
            | none =>
                rw [hnone]
                exact .same hk fun _ _ ↦ .fail _
            | some r =>
                refine .same hk fun t' hle ↦ (hsome r t' hle).mono ?_
                rintro id' e (he | ⟨rfl, rfl⟩)
                · exact (hends id' e he).mono (List.suffix_cons _ _)
                · exact ⟨_, List.mem_cons_self, r, hr, rfl⟩
          · rw [hgone, hr, hnone]
            rw [ht] at hlate
            refine .lost hk (fun t' hle ↦ hover r t' hle hlate) ?_
            exact ⟨k, id, A.store, r, List.mem_cons_self, hr, ht.symm ▸ hlate⟩

theorem burst_now (cx : Context) (faulty : Bool) (i : ℕ) (k : Request) (p : Req Response)
    (A : AppWorld) :
    (p.burst (machine cx) Statement.isClock faulty i k A).2.store.now = A.store.now := by
  induction p generalizing A with
  | ret a => rfl
  | fail e => rfl
  | stmt q next ih =>
      cases hlocal : q.isClock with
      | true =>
          rw [Prog.burst_local hlocal, ih]
          exact exec_now cx q A.store
      | false =>
          cases hfail : (machine cx).failure faulty q with
          | some r => simp only [Prog.burst_failed hlocal hfail]
          | none =>
              simp only [Prog.burst_shared hlocal hfail]
              exact exec_now cx q A.store

/-- A request that found an overdue session only looks at the clock once more. -/
theorem Timely.burst_lost (cx : Context) (faulty : Bool) (i : ℕ) (k : Request)
    {p : Req Response} (hp : Timely (fun _ _ ↦ False) t p) (ht : A.store.now = t) :
    (p.burst (machine cx) Statement.isClock faulty i k A).2.store = A.store ∧
      ∀ t', Timely (fun _ _ ↦ False) t'
        (p.burst (machine cx) Statement.isClock faulty i k A).1 := by
  induction hp generalizing A with
  | ret a => exact ⟨rfl, fun _ ↦ .ret a⟩
  | fail e => exact ⟨rfl, fun _ ↦ .fail e⟩
  | clock _ ih =>
      rw [Prog.burst_local rfl]
      simp only [exec_clock, ht]
      exact ih (A := A.ran (machine cx) i k .clock) ht
  | stmt hq => exact hq.elim

/-- One burst of a cleanup, in the run that has them. -/
theorem Timely.burst_sweeping (cx : Context) (faulty : Bool) (i : ℕ) (k : Request)
    {p : Req Response} (hp : Timely Statement.Sweeps t p) {a : Server} (ht : a.now = t)
    (hstores : Thinned a B.store) :
    Thinned a (p.burst (machine cx) Statement.isClock faulty i k B).2.store ∧
      ∀ t', t ≤ t' → Timely Statement.Sweeps t'
        (p.burst (machine cx) Statement.isClock faulty i k B).1 := by
  induction hp generalizing B with
  | ret a => exact ⟨hstores, fun _ _ ↦ .ret a⟩
  | fail e => exact ⟨hstores, fun _ _ ↦ .fail e⟩
  | clock _ ih =>
      rw [Prog.burst_local rfl]
      simp only [exec_clock, hstores.now, ht]
      exact ih ht (B := B.ran (machine cx) i k .clock) hstores
  | @stmt t q next hq hnext ih =>
      have hlocal : q.isClock = false := by
        cases q <;> first | rfl | exact hq.elim
      cases hfail : (machine cx).failure faulty q with
      | some r =>
          simp only [Prog.burst_failed hlocal hfail]
          exact ⟨hstores, hnext r⟩
      | none =>
          simp only [Prog.burst_shared hlocal hfail]
          exact ⟨hstores.sweep (ht.symm ▸ hq), hnext _⟩

end Bursts

/-! ## Both runs -/

/-- The run `B` with cleanups stands where the run `A` without stands. -/
structure Shadows (A B : AppConfig) : Prop where
  stores : Thinned A.world.store B.world.store
  length : B.pool.length = A.pool.length
  threads : ∀ i x y, A.pool[i]? = some x → B.pool[i]? = some y →
    Twin A.world.history A.world.store.now i x y

theorem Shadows.setRest {A B : AppConfig} (h : Shadows A B) {i : ℕ}
    {x : Thread Statement.Res Request AppError Response} {k : Request}
    {p p' : Option (Req Response)} {WA WB : AppWorld} (hi : A.pool[i]? = some x)
    (hstores : Thinned WA.store WB.store) (hsuffix : A.world.history <:+ WA.history)
    (hnow : WA.store.now = A.world.store.now)
    (htwin : Twin WA.history WA.store.now i ⟨k, p⟩ ⟨k, p'⟩) :
    Shadows (A.setRest i k p WA) (B.setRest i k p' WB) := by
  have hlt : i < A.pool.length := (List.getElem?_eq_some_iff.mp hi).1
  refine ⟨hstores, by simp [Config.setRest, h.length], fun j x y hx hy ↦ ?_⟩
  simp only [Config.setRest] at hx hy ⊢
  by_cases hij : i = j
  · subst hij
    rw [List.getElem?_set_self hlt] at hx
    rw [List.getElem?_set_self (h.length ▸ hlt)] at hy
    cases hx
    cases hy
    exact htwin
  · rw [List.getElem?_set_ne hij] at hx hy
    exact (h.threads j x y hx hy).mono hsuffix hnow.ge

section Schedules

variable {cx : Context} {A B : AppConfig}

theorem Shadows.twins (h : Shadows A B) (i : ℕ) : A.pool[i]? = none ∧ B.pool[i]? = none ∨
    ∃ x y, A.pool[i]? = some x ∧ B.pool[i]? = some y ∧
      Twin A.world.history A.world.store.now i x y := by
  rcases Nat.lt_or_ge i A.pool.length with hlt | hge
  · have hx := List.getElem?_eq_getElem hlt
    have hy := List.getElem?_eq_getElem (h.length ▸ hlt : i < B.pool.length)
    exact .inr ⟨_, _, hx, hy, h.threads i _ _ hx hy⟩
  · exact .inl ⟨List.getElem?_eq_none hge, List.getElem?_eq_none (h.length ▸ hge)⟩

/-- A cleanup that runs in `B` only. -/
theorem Shadows.setRest_sweeping (h : Shadows A B) {i : ℕ} {p p' : Option (Req Response)}
    {WB : AppWorld} (hi : A.pool[i]? = some ⟨.cleanup, p⟩)
    (hstores : Thinned A.world.store WB.store)
    (hp' : ∀ q, p' = some q → ∀ t, A.world.store.now ≤ t → Timely Statement.Sweeps t q) :
    Shadows A (B.setRest i .cleanup p' WB) := by
  have hset : Shadows (A.setRest i .cleanup p A.world) (B.setRest i .cleanup p' WB) :=
    h.setRest hi hstores (List.suffix_refl _) rfl (.sweeping hp')
  rwa [Config.setRest_self hi] at hset

theorem Shadows.turn (hlinks : cx.LinksLast) (h : Shadows A B) (t : Turn Request ℕ)
    (hfree : Along KeysFree (A.turn (machine cx) (handle cx) Statement.isClock
      (fun k ↦ !k.isCleanup) t).world.history) :
    Shadows (A.turn (machine cx) (handle cx) Statement.isClock (fun k ↦ !k.isCleanup) t)
      (B.turn (machine cx) (handle cx) Statement.isClock (fun _ ↦ true) t) := by
  cases t with
  | start k =>
      refine ⟨h.stores, by simp [Config.turn, h.length], fun i x y hx hy ↦ ?_⟩
      simp only [Config.turn] at hx hy ⊢
      rcases Nat.lt_or_ge i A.pool.length with hlt | hge
      · rw [List.getElem?_append_left hlt] at hx
        rw [List.getElem?_append_left (h.length ▸ hlt)] at hy
        exact h.threads i x y hx hy
      · rw [List.getElem?_append_right hge] at hx
        rw [List.getElem?_append_right (h.length ▸ hge)] at hy
        obtain rfl := List.mem_singleton.mp (List.mem_of_getElem? hx)
        obtain rfl := List.mem_singleton.mp (List.mem_of_getElem? hy)
        cases hk : k.isCleanup with
        | true =>
            have hcleanup : k = .cleanup := by cases k <;> first | rfl | cases hk
            subst hcleanup
            refine .sweeping fun q hq t _ ↦ ?_
            cases hq
            exact timely_cleanup cx t
        | false =>
            refine .same hk fun t _ ↦ steady_handle hlinks ?_ _ t
            rintro rfl
            cases hk
  | env ticks =>
      refine ⟨h.stores.moved cx ticks, h.length, fun i x y hx hy ↦ ?_⟩
      apply (h.threads i x y hx hy).mono (List.suffix_refl _)
      exact Int.le_add_of_nonneg_right (Int.natCast_nonneg ticks)
  | cut i =>
      rcases h.twins i with ⟨hx, hy⟩ | ⟨x, y, hx, hy, htwin⟩
      · simpa only [Config.turn, hx, hy] using h
      · cases htwin with
        | same hk hp =>
            simp only [Config.turn, hx, hy, hk, Bool.not_false, if_true]
            exact h.setRest hx h.stores (List.suffix_refl _) rfl .cut
        | cut => simpa only [Config.turn, hx, hy] using h
        | lost hk hp hfound =>
            simp only [Config.turn, hx, hy, hk, Bool.not_false, if_true]
            exact h.setRest hx h.stores (List.suffix_refl _) rfl .cut
        | @sweeping p p' hp' =>
            rw [(Config.turn_unserved hx rfl false).2]
            cases p' with
            | none => simpa only [Config.turn, hy] using h
            | some q =>
                simp only [Config.turn, hy, if_true]
                exact h.setRest_sweeping hx h.stores (by simp)
  | advance i faulty =>
      rcases h.twins i with ⟨hx, hy⟩ | ⟨x, y, hx, hy, htwin⟩
      · simpa only [Config.turn, hx, hy] using h
      · cases htwin with
        | @same k p hk hp =>
            simp only [Config.turn, hx, hy, hk, Bool.not_false, if_true] at hfree ⊢
            obtain ⟨hstores, htwin⟩ := (hp _ le_rfl).burst hk rfl h.stores (fun _ _ he ↦ he) hfree
            have hnow := burst_now cx faulty i k p A.world
            exact h.setRest hx hstores (Prog.suffix_burst _ _) hnow (hnow ▸ htwin)
        | cut => simpa only [Config.turn, hx, hy] using h
        | @lost k p hk hp hfound =>
            simp only [Config.turn, hx, hy, hk, Bool.not_false, if_true]
            obtain ⟨hsame, hnext⟩ := (hp _ le_rfl).burst_lost cx faulty i k rfl
            refine h.setRest hx ?_ (Prog.suffix_burst _ _) (burst_now cx faulty i k p A.world)
              (.lost hk (fun t _ ↦ hnext t) (hfound.mono (Prog.suffix_burst _ _)))
            rw [hsame]
            exact h.stores
        | @sweeping p p' hp' =>
            rw [(Config.turn_unserved hx rfl faulty).1]
            cases p' with
            | none => simpa only [Config.turn, hy] using h
            | some q =>
                simp only [Config.turn, hy, if_true]
                obtain ⟨hstores, hnext⟩ :=
                  (hp' q rfl _ le_rfl).burst_sweeping cx faulty i .cleanup rfl h.stores
                exact h.setRest_sweeping hx hstores fun q' hq' ↦ by cases hq'; exact hnext

theorem Shadows.turns (hlinks : cx.LinksLast) (h : Shadows A B) (ts : List (Turn Request ℕ))
    (hfree : Along KeysFree (A.turns (machine cx) (handle cx) Statement.isClock
      (fun k ↦ !k.isCleanup) ts).world.history) :
    Shadows (A.turns (machine cx) (handle cx) Statement.isClock (fun k ↦ !k.isCleanup) ts)
      (B.turns (machine cx) (handle cx) Statement.isClock (fun _ ↦ true) ts) := by
  induction ts generalizing A B with
  | nil => exact h
  | cons t ts ih =>
      have hstep : Along KeysFree (A.turn (machine cx) (handle cx) Statement.isClock
          (fun k ↦ !k.isCleanup) t).world.history :=
        hfree.of_suffix (Config.suffix_turns _ ts)
      exact ih (h.turn hlinks t hstep) hfree

end Schedules

/-- The run `B` shows what the run `A` shows: the same emails, so the same decisions about the
limit of reset emails, and the same outcomes.  Only a QR session that had expired more than an hour
ago when `A` found it may be reported as not found. -/
structure ShowsSame (A B : AppConfig) : Prop where
  mails : B.world.store.mails = A.world.store.mails
  outcomes : ∀ i k, A.request? i = some k → k.isCleanup = false →
    B.outcome i = A.outcome i ∨
      B.outcome i = some (.error QrError.notFound.into) ∧ FoundOverdue i A.world.history

theorem Shadows.showsSame {A B : AppConfig} (h : Shadows A B) : ShowsSame A B := by
  refine ⟨h.stores.mails, fun i k hk hserved ↦ ?_⟩
  rcases h.twins i with ⟨hx, -⟩ | ⟨x, y, hx, hy, htwin⟩
  · simp [Config.request?, hx] at hk
  · simp only [Config.request?, hx, Option.map_some, Option.some.injEq] at hk
    cases htwin with
    | same => exact .inl (by simp only [Config.outcome, hx, hy])
    | cut => exact .inl (by simp only [Config.outcome, hx, hy])
    | lost _ _ hfound => exact .inr ⟨by simp only [Config.outcome, hy], hfound⟩
    | sweeping =>
        subst hk
        cases hserved

/-- A schedule shows the same with and without its cleanups, wherever they take their turns. -/
theorem cleanup_unseen {cx : Context} {s : Server} {ts : List (Turn Request ℕ)}
    (hlinks : cx.LinksLast) (hlasting : ∀ t ∈ s.db.authTokens, t.createdAt ≤ t.expiresAt)
    (hfresh : cx.DrawsFresh s (uncleanedRun cx s ts).world.store.draws) :
    ShowsSame (uncleanedRun cx s ts) (cleanedRun cx s ts) := by
  have hreached : Reached cx s (uncleanedRun cx s ts) :=
    Reachable.initial.turns (fun _ ↦ trivial) ts
  have hstart : Shadows (.initial s) (.initial s) := by
    refine ⟨.refl hlasting, rfl, fun i x y hx ↦ ?_⟩
    simp [Config.initial] at hx
  exact (hstart.turns hlinks ts (hreached.along_keysFree hfresh)).showsSame

/-! ## A cleanup between an old session and its device -/

namespace CleanupSample

open Sample

/-- A link and a QR session that expired two hours ago. -/
def start : Server :=
  { server (.single (account 1 "ada@example.com" .user)) with
    db := { Db.empty with
      users := .single (account 1 "ada@example.com" .user)
      authTokens := .single ⟨1, .passwordReset, "old-link", none, 0, none, 0⟩
      qrSessions := .single ⟨"old", "sha256:secret", "1234", .pending, none, none, none, 0, 0, 0⟩ }
    now := Time.hours 2 }

/-- The cleanup runs first; then a reset email is asked for and the old session is polled. -/
def schedule : List (Turn Request ℕ) :=
  .start .cleanup :: List.replicate 7 (.advance 0 false) ++
    .start (.forgotPassword "ada@example.com") :: List.replicate 6 (.advance 1 false) ++
    .start (.qrPoll "old" (some "secret")) :: List.replicate 2 (.advance 2 false)

def reportsNotFound (c : AppConfig) : Bool :=
  match c.outcome 2 with
  | some (.error e) => decide (e = .notFound)
  | _ => false

def reportsExpired (c : AppConfig) : Bool :=
  match c.outcome 2 with
  | some (.ok (.qrPolled response)) => decide (response.status = "expired")
  | _ => false

end CleanupSample

theorem cleanup_unseen_but_for_old_session :
    ShowsSame (uncleanedRun .sample CleanupSample.start CleanupSample.schedule)
        (cleanedRun .sample CleanupSample.start CleanupSample.schedule) ∧
      CleanupSample.reportsExpired
        (uncleanedRun .sample CleanupSample.start CleanupSample.schedule) = true ∧
      CleanupSample.reportsNotFound
        (cleanedRun .sample CleanupSample.start CleanupSample.schedule) = true := by
  have hdraws : (uncleanedRun .sample CleanupSample.start CleanupSample.schedule).world.store.draws
      = 1 := by decide
  refine ⟨cleanup_unseen ⟨by decide, by decide, by decide⟩ ?_ ?_, by decide, by decide⟩
  · simp [CleanupSample.start, Table.single, Table.mem_def]
  · rw [hdraws]
    constructor
    · intro v _ m n hm hn _ _
      omega
    · intro v hv n hn hsource
      obtain rfl : n = 0 := by omega
      cases v with
      | recoveryCode h => cases hv
      | link h => exact absurd (hsource ▸ hv) (by decide)
      | state h => exact absurd (hsource ▸ hv) (by decide)
      | grant h => exact absurd (hsource ▸ hv) (by decide)
      | challenge id => exact absurd (hsource ▸ hv) (by decide)
      | session id => exact absurd (hsource ▸ hv) (by decide)

end ApiStarter
