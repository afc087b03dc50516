import ApiStarter.JobCustody

/-!
# How jobs are run

Over any interleaving of workers: nobody else holds a job that is held, it runs
when it is due and its backoff has passed, it never runs again once it has an
outcome, and it runs at most `max_attempts` times.
-/

namespace ApiStarter

open Interleave Interleave.Prog Relational

namespace Queue

/-- An action of the history has drawn this id for a job. -/
def Drawn (h : History) (id : Uuid) : Prop := ∃ e ∈ h, ∃ kind, e.1.inserts e.2 = some (id, kind)

/-- `Uuid::new_v4` gives no id a second time. -/
def freshIds (q : Queue) (a : Action) (h : History) : Bool :=
  match q.inserts a with
  | some (id, _) => h.all fun e ↦ decide ((e.1.inserts e.2).map Prod.fst ≠ some id)
  | none => true

/-- Runs of the queue, with their history. -/
abbrev Ran (cx : Context) (s : Queue) (h : History) (q : Queue) : Prop :=
  (system cx).Trace (fun q a h ↦ freshIds q a h = true) s h q

/-- How many times the job has been handed to a task. -/
def executions (id : Uuid) (h : History) : ℕ :=
  h.countP fun e ↦ (e.1.hands e.2).any fun job ↦ decide (job.id = id)

/-- What the claim, the outcomes and the counters of the queue are there for. -/
structure RunsJobsSafely (h : History) (q : Queue) : Prop where
  exclusive : ∀ w w' wk wk', q.worker w = some wk → q.worker w' = some wk' →
    ∀ id ∈ wk.held, id ∈ wk'.held → w = w'
  once : ∀ w wk, q.worker w = some wk → wk.held.Nodup
  due : ∀ e ∈ h, ∀ job, e.1.hands e.2 = some job →
    ∃ r, e.1.row job.id = some r ∧ r.runAt ≤ e.1.server.now
  settled : ∀ later e earlier, h = later ++ e :: earlier → ∀ job, e.1.hands e.2 = some job →
    ∀ e' ∈ earlier, ∀ r, e'.1.row job.id = some r → r.status ≠ .succeeded ∧ r.status ≠ .dead
  backoff : ∀ later e earlier, h = later ++ e :: earlier → ∀ job, e.1.hands e.2 = some job →
    ∀ e' ∈ earlier, ∀ failed backoff, e'.1.fails e'.2 = some (failed, backoff) →
      failed.id = job.id → e'.1.server.now + backoff ≤ e.1.server.now
  attempts : ∀ e ∈ h, ∀ job, e.1.hands e.2 = some job → (executions job.id h : ℤ) ≤ job.maxAttempts

section History

variable {cx : Context} {s q q' : Queue} {a : Action} {h : History} {id : Uuid}

theorem Drawn.cons (h' : Drawn h id) (e : Queue × Action) : Drawn (e :: h) id := by
  obtain ⟨e', he', hdrawn⟩ := h'
  exact ⟨e', List.mem_cons_of_mem _ he', hdrawn⟩

theorem not_drawn_of_freshIds {kind : String} (hfresh : freshIds q a h = true)
    (hinserts : q.inserts a = some (id, kind)) : ¬Drawn h id := by
  rintro ⟨e, he, kind', hdrawn⟩
  simp only [freshIds, hinserts, List.all_eq_true, decide_eq_true_eq] at hfresh
  exact hfresh e he (by simp [hdrawn])

/-- The job waits in the hands of a worker for a permit. -/
def Waits (q : Queue) (id : Uuid) : Prop :=
  ∃ w wk, q.worker w = some wk ∧ ∃ job ∈ wk.waitingJobs, job.id = id

theorem hands_eq_some {job : Job} (hhands : q.hands a = some job) : ∃ w jobs tasks cancelled,
    a = .hand w ∧ q.worker w = some ⟨.handing (job :: jobs), tasks, cancelled⟩ := by
  unfold hands at hhands
  split at hhands
  next w =>
    split at hhands
    next job' jobs tasks cancelled hw =>
      obtain rfl := Option.some.inj hhands
      exact ⟨w, jobs, tasks, cancelled, rfl, hw⟩
    next => cases hhands
  next => cases hhands

theorem Waits.of_advance {w : ℕ} {wk wk' : Worker} {server : Server} (hw : q.worker w = some wk)
    (h : (q.advance w server wk').Waits id) :
    q.Waits id ∨ ∃ job ∈ wk'.waitingJobs, job.id = id := by
  obtain ⟨w₀, wk₀, hw₀, hjob⟩ := h
  rw [worker_advance hw] at hw₀
  split at hw₀
  next =>
    cases hw₀
    exact .inr hjob
  next => exact .inl ⟨w₀, wk₀, hw₀, hjob⟩

/-- A job waits because it waited before, or because it was pending and has been claimed. -/
theorem Waits.of_step (hs : Steps cx q a q') (h : q'.Waits id) :
    q.Waits id ∨ ∃ r, q.row id = some r ∧ r.status = .pending := by
  cases hs with
  | tick | enqueue => exact .inl h
  | spawn =>
      obtain ⟨w, wk, hw, job, hjob, hid⟩ := h
      rcases worker_spawn hw with hw | rfl
      · exact .inl ⟨w, wk, hw, job, hjob, hid⟩
      · cases hjob
  | stop hw =>
      obtain ⟨w', wk', hw', hjob⟩ := h
      rw [worker_setWorker hw] at hw'
      split at hw'
      · cases hw'
      · exact .inl ⟨w', wk', hw', hjob⟩
  | lookUp hw | schedule _ hw | scheduleFails hw | claimFails hw | handed hw =>
      rcases h.of_advance hw with hold | ⟨job, hjob, -⟩
      · exact .inl hold
      · cases hjob
  | @wake w tasks cancelled hw =>
      rcases h.of_advance hw with hold | ⟨job, hjob, -⟩
      · exact .inl hold
      · cases cancelled <;> cases hjob
  | hand hw =>
      rcases h.of_advance hw with hold | ⟨job, hjob, hid⟩
      · exact .inl hold
      · exact .inl ⟨_, _, hw, job, List.mem_cons_of_mem _ hjob, hid⟩
  | shutdown hw =>
      rcases h.of_advance hw with hold | hnew
      · exact .inl hold
      · exact .inl ⟨_, _, hw, hnew⟩
  | @run w j wk job query next hw hj =>
      rcases h.of_advance hw with hold | hnew
      · exact .inl hold
      · rw [Worker.waitingJobs_resume] at hnew
        exact .inl ⟨w, wk, hw, hnew⟩
  | @fault w j wk job query next hw hj r hr =>
      rcases h.of_advance hw with hold | hnew
      · exact .inl hold
      · rw [Worker.waitingJobs_resume] at hnew
        exact .inl ⟨w, wk, hw, hnew⟩
  | claim locked hw =>
      rcases h.of_advance hw with hold | ⟨job, hjob, rfl⟩
      · exact .inl hold
      · obtain ⟨r, hr, rfl⟩ := List.mem_map.mp hjob
        obtain ⟨hmem, hpending, -⟩ := mem_dueJobs hr
        exact .inr ⟨r, Table.get?_of_mem hmem, hpending⟩

/-- A job that a task executes waits nowhere. -/
theorem Custody.not_waits (h : q.Custody) {w : ℕ} {wk : Worker} (hw : q.worker w = some wk)
    {t : Task} (ht : t ∈ wk.tasks) : ¬q.Waits t.job.id := by
  rintro ⟨w', wk', hw', job, hjob, hid⟩
  have hin : t.job.id ∈ wk.held := Worker.mem_held.mpr ⟨t.job, Worker.mem_jobs_of_task ht, rfl⟩
  have hin' : t.job.id ∈ wk'.held :=
    Worker.mem_held.mpr ⟨job, List.mem_append_left _ hjob, hid⟩
  obtain rfl := h.exclusive w w' wk wk' hw hw' _ hin hin'
  obtain rfl : wk = wk' := Option.some.inj (hw.symm.trans hw')
  have hnodup := h.nodup w wk hw
  unfold Worker.held at hnodup
  rw [List.map_append, List.nodup_append] at hnodup
  exact hnodup.2.2 _ (List.mem_map_of_mem hjob) _ (List.mem_map_of_mem (List.mem_map_of_mem ht)) hid

/-- A job is executed once it is claimed. -/
theorem claimed_of_hands (hq : q.Custody) {job : Job} (hhands : q.hands a = some job) :
    ∃ r, Claimed q.server job r := by
  obtain ⟨w, jobs, tasks, cancelled, -, hw⟩ := hands_eq_some hhands
  exact hq.claimed w _ hw job List.mem_cons_self

/-- What the row of a job says of its `n` executions so far. -/
structure Counted (n : ℕ) (waits : Prop) (r : JobRow) : Prop where
  limit : r.maxAttempts = defaultMaxAttempts
  pending : r.status = .pending → (n : ℤ) ≤ r.attempts ∧ r.attempts < defaultMaxAttempts
  running : r.status = .running → (n : ℤ) ≤ r.attempts + 1 ∧ r.attempts < defaultMaxAttempts
  waiting : r.status = .running → waits → (n : ℤ) ≤ r.attempts

section Run

variable (hnone : s.workers = []) (hempty : s.server.db.jobs = .empty)
include hnone

theorem Ran.custody (ht : Ran cx s h q) : q.Custody :=
  ht.invariant (I := fun _ q ↦ q.Custody) (.start hnone)
    fun _ _ _ _ _ _ hp hq ↦ hq.step (steps_of_perform hp)

theorem Ran.row_step (ht : Ran cx s h q) (hp : q.perform cx a = some q') (id : Uuid) :
    RowStep q a id (q.row id) (q'.row id) :=
  ApiStarter.row_step (ht.custody hnone) (steps_of_perform hp) id

include hempty

/-- A row was inserted at some moment. -/
theorem Ran.drawn_of_row (ht : Ran cx s h q) (hrow : q.row id ≠ none) : Drawn h id := by
  revert hrow
  refine ht.invariant (I := fun h q ↦ q.row id ≠ none → Drawn h id) ?_ ?_
  · intro hrow
    simp [row, hempty] at hrow
  · intro h q a q' ht hfresh hp ih hrow
    have hstep := Ran.row_step hnone ht hp id
    generalize q'.row id = o at hstep hrow
    generalize hq : q.row id = o' at hstep ih
    cases hstep with
    | inserted kind _ _ hinserts => exact ⟨(q, a), List.mem_cons_self, kind, hinserts⟩
    | pruned => exact absurd rfl hrow
    | same => exact (ih hrow).cons _
    | _ => exact (ih (by simp)).cons _

/-- So a job that has a row, or had one, is not inserted again. -/
theorem Ran.drawn_of_seen (ht : Ran cx s h q) {e : Queue × Action} (he : e ∈ h)
    (hrow : e.1.row id ≠ none) : Drawn h id := by
  obtain ⟨later, earlier, rfl⟩ := List.append_of_mem he
  obtain ⟨e', he', hdrawn⟩ := Ran.drawn_of_row hnone hempty (ht.past rfl).1 hrow
  exact ⟨e', List.mem_append_right _ (List.mem_cons_of_mem _ he'), hdrawn⟩

theorem Ran.not_inserts (ht : Ran cx s h q) (hfresh : freshIds q a h = true)
    (hrow : q.row id ≠ none ∨ ∃ e ∈ h, e.1.row id ≠ none) (kind : String) :
    q.inserts a ≠ some (id, kind) := by
  intro hinserts
  apply not_drawn_of_freshIds hfresh hinserts
  rcases hrow with hrow | ⟨e, he, hrow⟩
  · exact Ran.drawn_of_row hnone hempty ht hrow
  · exact Ran.drawn_of_seen hnone hempty ht he hrow

omit hempty in
theorem Ran.claimed_of_fails (ht : Ran cx s h q) {e : Queue × Action} (he : e ∈ h) {job : Job}
    {backoff : Time} (hfails : e.1.fails e.2 = some (job, backoff)) :
    ∃ r, Claimed e.1.server job r := by
  obtain ⟨later, earlier, rfl⟩ := List.append_of_mem he
  obtain ⟨hpast, -, q', hp⟩ := ht.past rfl
  obtain ⟨r, _, hr, -⟩ := fails_step (Ran.custody hnone hpast) (steps_of_perform hp) hfails
  exact ⟨r, hr⟩

omit hempty in
theorem Ran.claimed_of_hands (ht : Ran cx s h q) {e : Queue × Action} (he : e ∈ h) {job : Job}
    (hhands : e.1.hands e.2 = some job) : ∃ r, Claimed e.1.server job r := by
  obtain ⟨later, earlier, rfl⟩ := List.append_of_mem he
  exact Queue.claimed_of_hands (Ran.custody hnone (ht.past rfl).1) hhands

omit hnone hempty in
theorem final_step {o o' : Option JobRow} (hstep : RowStep q a id o o')
    (hinserts : ∀ kind, q.inserts a ≠ some (id, kind))
    (hfinal : ∀ r, o = some r → r.status.isFinal = true) :
    ∀ r, o' = some r → r.status.isFinal = true := by
  cases hstep with
  | same => exact hfinal
  | inserted kind _ _ h => exact absurd h (hinserts kind)
  | pruned => simp
  | claimed hstatus | succeeded hstatus | failed _ hstatus =>
      have hfalse := hfinal _ rfl
      rw [hstatus] at hfalse
      cases hfalse

/-- Once a job has an outcome for good, its row keeps it until it is pruned. -/
theorem Ran.final (ht : Ran cx s h q) {e : Queue × Action} (he : e ∈ h) {r : JobRow}
    (hrow : e.1.row id = some r) (hfinal : r.status.isFinal = true) {r' : JobRow}
    (hrow' : q.row id = some r') : r'.status.isFinal = true := by
  revert e r r'
  refine ht.invariant (I := fun h q ↦ ∀ {e}, e ∈ h → ∀ {r}, e.1.row id = some r →
    r.status.isFinal = true → ∀ {r'}, q.row id = some r' → r'.status.isFinal = true) ?_ ?_
  · simp
  · intro h q a q' ht hfresh hp ih e he r hrow hfinal r' hrow'
    have hstep := Ran.row_step hnone ht hp id
    rcases List.mem_cons.mp he with rfl | he
    · refine final_step hstep (Ran.not_inserts hnone hempty ht hfresh (.inl ?_)) ?_ r' hrow'
      · simp [hrow]
      · intro r₀ hr₀
        obtain rfl : r = r₀ := Option.some.inj (hrow.symm.trans hr₀)
        exact hfinal
    · refine final_step hstep
        (Ran.not_inserts hnone hempty ht hfresh (.inr ⟨e, he, ?_⟩)) ?_ r' hrow'
      · simp [hrow]
      · exact fun r₀ hr₀ ↦ ih he hrow hfinal hr₀

omit hnone hempty in
theorem retryBackoff_nonneg (attempts : ℤ) : 0 ≤ retryBackoff attempts := by
  have hget : ∀ i, (0 : ℤ) ≤ retryBackoffSecs.getD i 16 := by
    rintro (_ | _ | _ | i) <;> simp [retryBackoffSecs]
  exact Int.mul_nonneg (hget _) (by decide)

/-- After a failure the row is not due before the backoff is over. -/
theorem Ran.backoff (ht : Ran cx s h q) {e : Queue × Action} (he : e ∈ h) {job : Job}
    {backoff : Time} (hfails : e.1.fails e.2 = some (job, backoff)) {r : JobRow}
    (hrow : q.row job.id = some r) :
    r.status.isFinal = true ∨ e.1.server.now + backoff ≤ r.runAt := by
  revert e r
  refine ht.invariant (I := fun h q ↦ ∀ {e}, e ∈ h → e.1.fails e.2 = some (job, backoff) →
    ∀ {r}, q.row job.id = some r →
      r.status.isFinal = true ∨ e.1.server.now + backoff ≤ r.runAt) ?_ ?_
  · simp
  · intro h q a q' ht hfresh hp ih e he hfails r hrow
    rcases List.mem_cons.mp he with rfl | he
    · obtain ⟨r₀, error, -, hrow'⟩ :=
        fails_step (Ran.custody hnone ht) (steps_of_perform hp) hfails
      obtain rfl := Option.some.inj (hrow'.symm.trans hrow)
      exact .inr le_rfl
    · have hstep := Ran.row_step hnone ht hp job.id
      obtain ⟨r₀, hr₀⟩ := Ran.claimed_of_fails hnone ht he hfails
      have hseen : e.1.row job.id ≠ none := by simp [row, hr₀.row]
      have hinserts := Ran.not_inserts hnone hempty ht hfresh (.inr ⟨e, he, hseen⟩)
      rw [hrow] at hstep
      generalize hq : q.row job.id = o at hstep
      cases hstep with
      | same => exact ih he hfails hq
      | inserted kind _ _ h => exact absurd h (hinserts kind)
      | succeeded => exact .inl rfl
      | claimed hstatus =>
          rcases ih he hfails hq with hfinal | hlater
          · rw [hstatus] at hfinal
            cases hfinal
          · exact .inr hlater
      | failed _ hstatus hdue =>
          rcases ih he hfails hq with hfinal | hlater
          · rw [hstatus] at hfinal
            cases hfinal
          · exact .inr ((hlater.trans hdue).trans
              (Int.le_add_of_nonneg_right (retryBackoff_nonneg _)))

omit hnone hempty in
@[simp] theorem executions_cons (e : Queue × Action) : executions id (e :: h) =
    executions id h + if (e.1.hands e.2).any fun job ↦ decide (job.id = id) then 1 else 0 :=
  List.countP_cons ..

theorem Ran.executions_eq_zero (ht : Ran cx s h q) (hnew : ¬Drawn h id) :
    executions id h = 0 := by
  refine List.countP_eq_zero.mpr fun e he hhands ↦ hnew ?_
  obtain ⟨job, hjob, hid⟩ := (Option.any_eq_true ..).mp hhands
  obtain ⟨r, hr⟩ := Ran.claimed_of_hands hnone ht he hjob
  have hrow : e.1.row id ≠ none := by
    rw [← of_decide_eq_true hid]
    simp [row, hr.row]
  exact Ran.drawn_of_seen hnone hempty ht he hrow

omit hnone hempty in
/-- Handing a waiting job to a task is one more execution. -/
theorem Counted.hand (hq : q.Custody) (hs : Steps cx q a q') {job : Job}
    (hhands : q.hands a = some job) {n : ℕ} {r : JobRow} (hr : Claimed q.server job r)
    (hcount : Counted n (q.Waits job.id) r) :
    q'.row job.id = some r ∧ Counted (n + 1) (q'.Waits job.id) r ∧ n < defaultMaxAttempts := by
  have hq' := hq.step hs
  obtain ⟨w, jobs, tasks, cancelled, rfl, hw⟩ := hands_eq_some hhands
  have hwaiting := hcount.waiting hr.status ⟨w, _, hw, job, List.mem_cons_self, rfl⟩
  have hrunning := hcount.running hr.status
  cases hs with
  | handed hw' => cases hw.symm.trans hw'
  | hand hw' =>
      cases hw.symm.trans hw'
      refine ⟨hr.row, ⟨hcount.limit, ?_, fun _ ↦ ?_, fun _ hwaits ↦ ?_⟩, by omega⟩
      · intro hpending
        cases hpending.symm.trans hr.status
      · omega
      · have hin : ⟨job, process cx job⟩ ∈ tasks ++ [⟨job, process cx job⟩] :=
          List.mem_append_right tasks List.mem_cons_self
        exact absurd hwaits (hq'.not_waits ((worker_advance hw q.server _).trans (if_pos rfl)) hin)

omit hnone hempty in
/-- Any other step leaves the number of executions within what the new row says. -/
theorem Counted.other {n : ℕ} {o o' : Option JobRow} (hstep : RowStep q a id o o')
    (hcount : ∀ r, o = some r → Counted n (q.Waits id) r)
    (hnew : ∀ kind, q.inserts a = some (id, kind) → n = 0)
    (hwaits : ∀ r, o = some r → r.status = .running → q'.Waits id → q.Waits id) :
    ∀ r, o' = some r → Counted n (q'.Waits id) r := by
  intro r' hr'
  cases hstep with
  | same =>
      have hold := hcount r' hr'
      exact ⟨hold.limit, hold.pending, hold.running,
        fun hrunning hw ↦ hold.waiting hrunning (hwaits r' hr' hrunning hw)⟩
  | inserted kind payload runAt hinserts =>
      cases hr'
      obtain rfl := hnew kind hinserts
      exact ⟨rfl, fun _ ↦ ⟨le_rfl, (by decide : (0 : ℤ) < 5)⟩, by rintro ⟨⟩, by rintro ⟨⟩⟩
  | @claimed r hstatus =>
      cases hr'
      have hold := hcount r rfl
      have hpending := hold.pending hstatus
      refine ⟨hold.limit, by rintro ⟨⟩, fun _ ↦ ⟨?_, hpending.2⟩, fun _ _ ↦ hpending.1⟩
      exact hpending.1.trans (Int.le_add_of_nonneg_right (by decide))
  | @succeeded r =>
      cases hr'
      exact ⟨(hcount r rfl).limit, by rintro ⟨⟩, by rintro ⟨⟩, by rintro ⟨⟩⟩
  | @failed r error hstatus =>
      cases hr'
      have hold := hcount r rfl
      have hrunning := hold.running hstatus
      have hnot : (r.failedOnce r.job error (retryBackoff r.attempts) q.server.now).status ≠
          .running := by
        unfold JobRow.failedOnce
        cases r.job.isSpent <;> simp
      refine ⟨hold.limit, fun hpending ↦ ⟨hrunning.1, ?_⟩, fun h ↦ absurd h hnot,
        fun h ↦ absurd h hnot⟩
      have hspent : r.job.isSpent = false := by
        by_contra hspent
        simp [JobRow.failedOnce, hspent] at hpending
      have hlt : r.attempts + 1 < r.maxAttempts := by simpa [Job.isSpent, JobRow.job] using hspent
      exact hold.limit ▸ hlt
  | pruned => cases hr'

theorem Ran.counted (ht : Ran cx s h q) (id : Uuid) : (executions id h : ℤ) ≤ defaultMaxAttempts ∧
    ∀ r, q.row id = some r → Counted (executions id h) (q.Waits id) r := by
  refine ht.invariant (I := fun h q ↦ (executions id h : ℤ) ≤ defaultMaxAttempts ∧
    ∀ r, q.row id = some r → Counted (executions id h) (q.Waits id) r) ?_ ?_
  · refine ⟨Int.natCast_nonneg 5, fun r hr ↦ ?_⟩
    simp [row, hempty] at hr
  · rintro h q a q' ht hfresh hp ⟨htotal, hcount⟩
    have hs := steps_of_perform hp
    have hq := Ran.custody hnone ht
    by_cases hhands : ∃ job, q.hands a = some job ∧ job.id = id
    · obtain ⟨job, hhands, rfl⟩ := hhands
      obtain ⟨r, hr⟩ := Queue.claimed_of_hands hq hhands
      obtain ⟨hrow', hcount', hlt⟩ := Counted.hand hq hs hhands hr (hcount r hr.row)
      have hone : executions job.id ((q, a) :: h) = executions job.id h + 1 := by simp [hhands]
      rw [hone]
      refine ⟨by omega, fun r' hr' ↦ ?_⟩
      obtain rfl : r = r' := Option.some.inj (hrow'.symm.trans hr')
      exact hcount'
    · have hsame : executions id ((q, a) :: h) = executions id h := by
        simpa [Option.any_eq_true] using hhands
      rw [hsame]
      refine ⟨htotal, Counted.other (Ran.row_step hnone ht hp id) hcount ?_ ?_⟩
      · intro kind hinserts
        exact Ran.executions_eq_zero hnone hempty ht (not_drawn_of_freshIds hfresh hinserts)
      · intro r hr hrunning hwaits
        rcases hwaits.of_step hs with hold | ⟨r₀, hr₀, hpending⟩
        · exact hold
        · obtain rfl : r = r₀ := Option.some.inj (hr.symm.trans hr₀)
          cases hpending.symm.trans hrunning

end Run

end History

end Queue

/-! ## All runs -/

theorem jobs_run_safely {cx : Context} {s q : Queue} {h : Queue.History}
    (hran : Queue.Ran cx s h q) (hnone : s.workers = []) (hempty : s.server.db.jobs = .empty) :
    Queue.RunsJobsSafely h q := by
  have hcustody := Queue.Ran.custody hnone hran
  constructor
  · exact hcustody.exclusive
  · exact hcustody.nodup
  · intro e he job hhands
    obtain ⟨r, hr⟩ := Queue.Ran.claimed_of_hands hnone hran he hhands
    exact ⟨r, hr.row, hr.due⟩
  · intro later e earlier hh job hhands e' he' r hrow
    have hpast := (hran.past hh).1
    obtain ⟨r', hr'⟩ := Queue.Ran.claimed_of_hands hnone hran (hh ▸ by simp) hhands
    have hactive : r.status.isFinal = false := by
      by_contra hfinal
      have hfinal' := Queue.Ran.final hnone hempty hpast he' hrow (by simpa using hfinal) hr'.row
      rw [hr'.status] at hfinal'
      cases hfinal'
    constructor
    · intro hsucceeded
      rw [hsucceeded] at hactive
      cases hactive
    · intro hdead
      rw [hdead] at hactive
      cases hactive
  · intro later e earlier hh job hhands e' he' failed backoff hfails hid
    have hpast := (hran.past hh).1
    obtain ⟨r, hr⟩ := Queue.Ran.claimed_of_hands hnone hran (hh ▸ by simp) hhands
    rcases Queue.Ran.backoff hnone hempty hpast he' hfails (hid ▸ hr.row) with hfinal | hlater
    · rw [hr.status] at hfinal
      cases hfinal
    · exact hlater.trans hr.due
  · intro e he job hhands
    have htotal := (Queue.Ran.counted hnone hempty hran job.id).1
    obtain ⟨later, earlier, rfl⟩ := List.append_of_mem he
    obtain ⟨r, hr⟩ := Queue.Ran.claimed_of_hands hnone hran he hhands
    have hcount := (Queue.Ran.counted hnone hempty (hran.past rfl).1 job.id).2 r hr.row
    have hmax : r.maxAttempts = job.maxAttempts := congrArg Job.maxAttempts hr.job
    exact htotal.trans_eq (hcount.limit.symm.trans hmax)

namespace Queue

/-- A job fails once and is executed again when its backoff has passed. -/
def retried : List Action :=
  [.enqueue 7 "report" "\x7b\x7d" 0, .spawn, .lookUp 0, .scheduleFails 0, .wake 0, .claim 0 [],
    .hand 0, .hand 0, .run 0 0, .tick 1000000, .wake 0, .claim 0 [], .hand 0]

end Queue

theorem jobs_run_safely_retried :
    ∃ h q, Queue.Ran .sample Queue.empty h q ∧ Queue.executions 7 h = 2 ∧
      Queue.RunsJobsSafely h q := by
  obtain ⟨r, hran, htest⟩ : ∃ r : Queue.History × Queue, Queue.Ran .sample Queue.empty r.1 r.2 ∧
      decide (Queue.executions 7 r.1 = 2) = true :=
    System.Trace.of_schedule Queue.retried _ (by decide)
  exact ⟨r.1, r.2, hran, of_decide_eq_true htest, jobs_run_safely hran rfl rfl⟩

end ApiStarter
