import ApiStarter.WorkerSteps

/-!
# No job is lost

A claimed row stays `running` until its worker writes the outcome, and nothing
claims a `running` row again.  Every row that is not settled is therefore held
by a worker as long as no worker stops with claimed jobs in its hands and every
final write goes through.
-/

namespace ApiStarter

open Interleave Interleave.Prog Relational

/-- The row can still be claimed, or is finished for good. -/
def JobStatus.isSettled : JobStatus → Bool
  | .pending | .succeeded | .dead => true
  | .running | .failed => false

namespace Queue

/-- A job that no live worker holds is pending, succeeded or dead. -/
def NoJobLost (q : Queue) : Prop :=
  ∀ r ∈ q.server.db.jobs, (∀ w wk, q.worker w = some wk → r.id ∉ wk.held) →
    r.status = .pending ∨ r.status = .succeeded ∨ r.status = .dead

end Queue

/-! ## Statements -/

def Statement.claimsJobs : Statement → Bool
  | .sql (.jobs (.claimBatch ..)) => true
  | _ => false

/-- The final write for job `id`. -/
def Statement.writesOutcome (id : Uuid) : Statement → Bool
  | .sql (.jobs (.markSucceeded id')) => decide (id' = id)
  | .sql (.jobs (.rescheduleOrKill job _ _)) => decide (job.id = id)
  | _ => false

/-- The ids of the rows that are neither claimable nor finished. -/
def unsettled (jobs : Table JobRow.id) (id : Uuid) : Prop :=
  ∃ r ∈ jobs, r.id = id ∧ r.status.isSettled = false

section Statements

variable {cx : Context} {s : Server} {jobs : Table JobRow.id} {now : Time} {id : Uuid}

theorem unsettled_updateWhere {p : JobRow → Bool} {f : JobRow → JobRow}
    (hf : ∀ r : JobRow, (f r).id = r.id) (h : unsettled (jobs.updateWhere p f hf) id) :
    ∃ r ∈ jobs, r.id = id ∧
      if p r then (f r).status.isSettled = false else r.status.isSettled = false := by
  obtain ⟨r, hr, rfl, hstatus⟩ := h
  obtain ⟨r₀, hr₀, rfl⟩ := Table.mem_updateWhere.mp hr
  refine ⟨r₀, hr₀, ?_, ?_⟩
  · split <;> simp [hf]
  · split at hstatus <;> simp_all

/-- An update that settles what it matches leaves the rest as it was. -/
theorem unsettled_of_settling {p : JobRow → Bool} {f : JobRow → JobRow}
    (hf : ∀ r : JobRow, (f r).id = r.id) (hsettles : ∀ r, (f r).status.isSettled = true)
    (h : unsettled (jobs.updateWhere p f hf) id) :
    ∃ r ∈ jobs, r.id = id ∧ p r = false ∧ r.status.isSettled = false := by
  obtain ⟨r, hr, hid, hstatus⟩ := unsettled_updateWhere hf h
  cases hp : p r with
  | true => simp [hp, hsettles] at hstatus
  | false => exact ⟨r, hr, hid, hp, by simpa [hp] using hstatus⟩

theorem JobRow.isSettled_succeed (r : JobRow) : (r.succeed now).status.isSettled = true := rfl

theorem JobRow.isSettled_failedOnce (job : Job) (error : String) (backoff : Time) (r : JobRow) :
    (r.failedOnce job error backoff now).status.isSettled = true := by
  unfold failedOnce
  cases job.isSpent <;> rfl

theorem unsettled_insert? {jobs' : Table JobRow.id} {id' : Uuid} {kind payload : String}
    {runAt : Time} (hinsert : jobs.insert? (newJob id' kind payload runAt now) = some jobs')
    (h : unsettled jobs' id) : unsettled jobs id := by
  obtain ⟨r, hr, hid, hstatus⟩ := h
  rcases (Table.mem_insert? hinsert).mp hr with hr | rfl
  · exact ⟨r, hr, hid, hstatus⟩
  · cases hstatus

theorem unsettled_run_claimBatch {limit : ℕ} {locked : List Uuid}
    (h : unsettled ((JobSql.claimBatch limit locked).run now jobs).2 id) :
    unsettled jobs id ∨ id ∈ ((dueJobs now limit locked jobs).map JobRow.job).map Job.id := by
  obtain ⟨r, hr, rfl, hstatus⟩ := unsettled_updateWhere (JobRow.id_markRunning now) h
  split at hstatus
  next hclaimed =>
    refine .inr ?_
    simpa [JobRow.job, Function.comp_def] using hclaimed
  next => exact .inl ⟨r, hr, rfl, hstatus⟩

/-- Only a claim unsettles rows. -/
theorem unsettled_run {q : JobSql} (hq : ∀ limit locked, q ≠ .claimBatch limit locked)
    (h : unsettled (q.run now jobs).2 id) : unsettled jobs id := by
  cases q with
  | enqueue id' kind payload runAt =>
      simp only [JobSql.run] at h
      split at h
      next => exact h
      next hinsert => exact unsettled_insert? hinsert h
  | ensureScheduled scheduled id' kind =>
      simp only [JobSql.run] at h
      split at h
      · exact h
      · split at h
        next => exact h
        next hinsert => exact unsettled_insert? hinsert h
  | claimBatch limit locked => exact absurd rfl (hq limit locked)
  | markSucceeded id' =>
      obtain ⟨r, hr, hid, -, hstatus⟩ :=
        unsettled_of_settling (JobRow.id_succeed now) JobRow.isSettled_succeed h
      exact ⟨r, hr, hid, hstatus⟩
  | rescheduleOrKill job error backoff =>
      obtain ⟨r, hr, hid, -, hstatus⟩ :=
        unsettled_of_settling (JobRow.id_failedOnce now · job error backoff)
          (JobRow.isSettled_failedOnce job error backoff) h
      exact ⟨r, hr, hid, hstatus⟩
  | prune status cutoff =>
      obtain ⟨r, hr, hid, hstatus⟩ := h
      exact ⟨r, (Table.mem_deleteWhere.mp hr).1, hid, hstatus⟩

theorem unsettled_exec {q : Statement} (hq : q.claimsJobs = false)
    (h : unsettled ((machine cx).exec q s).2.db.jobs id) : unsettled s.db.jobs id := by
  cases q with
  | sql q =>
      cases q with
      | jobs q =>
          have hclaim : ∀ limit locked, q ≠ .claimBatch limit locked := by
            rintro limit locked rfl
            cases hq
          exact unsettled_run hclaim h
      | _ => exact h
  | _ => exact h

/-- After its final write the job is settled. -/
theorem not_unsettled_of_writesOutcome {q : Statement} (hq : q.writesOutcome id = true) :
    ¬unsettled ((machine cx).exec q s).2.db.jobs id := by
  intro h
  unfold Statement.writesOutcome at hq
  split at hq
  next id' =>
    obtain ⟨r, -, hid, hother, -⟩ :=
      unsettled_of_settling (JobRow.id_succeed s.now) JobRow.isSettled_succeed h
    simp_all
  next job error backoff =>
    obtain ⟨r, -, hid, hother, -⟩ :=
      unsettled_of_settling (JobRow.id_failedOnce s.now · job error backoff)
        (JobRow.isSettled_failedOnce job error backoff) h
    simp_all
  next => cases hq

end Statements

/-! ## Tasks -/

/-- The task claims nothing and does not return before its final write. -/
def WritesBack (id : Uuid) : Prog Statement.Res Empty Unit → Prop
  | .ret _ => False
  | .fail e => e.elim
  | .stmt q next => q.claimsJobs = false ∧
      (q.writesOutcome id = true ∧ (∀ r, next r = .ret ()) ∨ ∀ r, WritesBack id (next r))

theorem WritesBack.bind {id : Uuid} {β : Type} {p : Prog Statement.Res Empty β}
    {f : β → Prog Statement.Res Empty Unit} (hp : p.Only fun q ↦ q.claimsJobs = false)
    (hf : ∀ b, WritesBack id (f b)) : WritesBack id (p >>= f) := by
  induction p with
  | ret b => exact hf b
  | fail e => exact e.elim
  | stmt q next ih => exact ⟨hp.1, .inr fun r ↦ ih r (hp.2 r)⟩

theorem only_dispatch (cx : Context) (job : Job) :
    (dispatch cx job).Only fun q ↦ q.claimsJobs = false := by
  refine only_ite.mpr ⟨fun _ ↦ .mapErr (.bind ?_ fun _ ↦ ?_), fun _ ↦ trivial⟩
  · simp [runCleanup, Statement.claimsJobs]
  · simp [enqueueJob, Statement.claimsJobs]

theorem writesBack_process (cx : Context) (job : Job) : WritesBack job.id (process cx job) := by
  refine .bind (only_dispatch cx job).attempt fun result ↦ ?_
  cases result with
  | ok => exact ⟨rfl, .inl ⟨by simp [Statement.writesOutcome], by rintro (_ | _) <;> rfl⟩⟩
  | error e => exact ⟨rfl, .inl ⟨by simp [Statement.writesOutcome], by rintro (_ | _) <;> rfl⟩⟩

/-! ## Workers -/

namespace Queue

section Invariant

variable {cx : Context} {q : Queue} {w w' : ℕ} {wk wk' : Worker}

/-- Every row that is not settled is held by a worker, whose final write is still to come. -/
structure Covered (q : Queue) : Prop where
  held : ∀ id, unsettled q.server.db.jobs id → ∃ w wk, q.worker w = some wk ∧ id ∈ wk.held
  writesBack : ∀ w wk, q.worker w = some wk → ∀ t ∈ wk.tasks, WritesBack t.job.id t.rest

theorem Covered.noJobLost (h : q.Covered) : q.NoJobLost := by
  intro r hr hfree
  by_contra hstatus
  obtain ⟨w, wk, hw, hmem⟩ := h.held r.id ⟨r, hr, rfl, by
    cases hr : r.status <;> simp_all [JobStatus.isSettled]⟩
  exact hfree w wk hw hmem

/-- What one worker does, on the table and to itself. -/
theorem Covered.setWorker (h : q.Covered) (hw : q.worker w = some wk) {server : Server}
    (hrows : ∀ id, unsettled server.db.jobs id →
      unsettled q.server.db.jobs id ∧ (id ∈ wk.held → id ∈ wk'.held) ∨ id ∈ wk'.held)
    (htasks : ∀ t ∈ wk'.tasks, t ∈ wk.tasks ∨ WritesBack t.job.id t.rest) :
    ({ q with server }.setWorker w (some wk') : Queue).Covered := by
  have hworker : ∀ w', ({ q with server }.setWorker w (some wk') : Queue).worker w' =
      if w' = w then some wk' else q.worker w' :=
    fun w' ↦ worker_setWorker (q := { q with server }) hw (some wk')
  refine ⟨fun id hid ↦ ?_, fun w' wk₂ hw' t ht ↦ ?_⟩
  · rcases hrows id hid with ⟨hold, hkeeps⟩ | hnew
    · obtain ⟨w₀, wk₀, hw₀, hmem⟩ := h.held id hold
      by_cases heq : w₀ = w
      · subst heq
        obtain rfl : wk = wk₀ := Option.some.inj (hw.symm.trans hw₀)
        exact ⟨w₀, wk', by simp [hworker], hkeeps hmem⟩
      · exact ⟨w₀, wk₀, by simp [hworker, heq, hw₀], hmem⟩
    · exact ⟨w, wk', by simp [hworker], hnew⟩
  · rw [hworker] at hw'
    split at hw'
    · obtain rfl : wk' = wk₂ := Option.some.inj hw'
      exact (htasks t ht).elim (h.writesBack w wk hw t) id
    · exact h.writesBack w' wk₂ hw' t ht

/-- A statement of the jobs table other than a claim. -/
theorem Covered.runJobs (h : q.Covered) {query : JobSql}
    (hquery : ∀ limit locked, query ≠ .claimBatch limit locked) : (q.runJobs query).Covered :=
  ⟨fun id hid ↦ h.held id (unsettled_run hquery hid), h.writesBack⟩

/-- The worker does not stop with a claimed job in its hands, and no final write fails. -/
def careful (q : Queue) : Action → Bool
  | .fault w j =>
      match q.worker w with
      | some wk =>
          match wk.tasks[j]? with
          | some ⟨job, .stmt query _⟩ => !query.writesOutcome job.id
          | _ => true
      | none => true
  | .stop w => (q.worker w).all fun wk ↦ wk.held.isEmpty
  | _ => true

/-- One statement of a task. -/
theorem Covered.resume (h : q.Covered) (hw : q.worker w = some wk) {j : ℕ} {job : Job}
    {p rest : Prog Statement.Res Empty Unit} (hj : wk.tasks[j]? = some ⟨job, p⟩) {server : Server}
    (hrows : ∀ id, unsettled server.db.jobs id → unsettled q.server.db.jobs id)
    (hrest : rest = .ret () ∧ ¬unsettled server.db.jobs job.id ∨ WritesBack job.id rest) :
    ({ q with server }.setWorker w (some (wk.resume j job rest)) : Queue).Covered := by
  refine h.setWorker hw (fun id hid ↦ .inl ⟨hrows id hid, fun hmem ↦ ?_⟩) fun t ht ↦ ?_
  · rcases Worker.mem_held_resume rest hj hmem with hmem | ⟨rfl, rfl⟩
    · exact hmem
    · rcases hrest with ⟨-, hsettled⟩ | hfalse
      · exact absurd hid hsettled
      · exact hfalse.elim
  · rcases Worker.mem_tasks_resume ht with ht | ⟨rfl, hne⟩
    · exact .inl ht
    · exact .inr (hrest.resolve_left fun hret ↦ hne hret.1)

theorem Covered.spawn (h : q.Covered) :
    ({ q with workers := q.workers ++ [some .spawned] } : Queue).Covered := by
  refine ⟨fun id hid ↦ ?_, fun w wk hw t ht ↦ ?_⟩
  · obtain ⟨w, wk, hw, hmem⟩ := h.held id hid
    exact ⟨w, wk, worker_spawn_of hw, hmem⟩
  rcases worker_spawn hw with hw | rfl
  · exact h.writesBack w wk hw t ht
  · -- the new worker has no tasks yet
    simp [Worker.spawned] at ht

theorem Covered.stop (h : q.Covered) (hw : q.worker w = some wk) (hempty : wk.held = []) :
    (q.setWorker w none).Covered := by
  refine ⟨fun id hid ↦ ?_, fun w' wk' hw' t ht ↦ ?_⟩
  · obtain ⟨w₀, wk₀, hw₀, hmem⟩ := h.held id hid
    refine ⟨w₀, wk₀, ?_, hmem⟩
    rw [worker_setWorker hw, if_neg, hw₀]
    rintro rfl
    obtain rfl : wk = wk₀ := Option.some.inj (hw.symm.trans hw₀)
    simp [hempty] at hmem
  · rw [worker_setWorker hw] at hw'
    split at hw'
    · cases hw'
    · exact h.writesBack w' wk' hw' t ht

theorem Covered.perform (h : q.Covered) {a : Action} {q' : Queue} (ha : q.careful a = true)
    (hp : q.perform cx a = some q') : q'.Covered := by
  cases steps_of_perform hp with
  | tick ticks => exact ⟨h.held, h.writesBack⟩
  | enqueue id kind payload runAt => exact h.runJobs (by simp)
  | spawn => exact h.spawn
  | @schedule w scheduled tasks cancelled id hw =>
      have hran : (q.runJobs (.ensureScheduled scheduled id Cleanup.kind)).Covered :=
        h.runJobs (by simp)
      exact hran.setWorker hw (fun id hid ↦ .inl ⟨hid, fun hmem ↦ hmem⟩) fun t ht ↦ .inl ht
  | lookUp hw | scheduleFails hw | claimFails hw | handed hw | shutdown hw =>
      exact h.setWorker hw (fun id hid ↦ .inl ⟨hid, fun hmem ↦ hmem⟩) fun t ht ↦ .inl ht
  | @wake w tasks cancelled hw =>
      refine h.setWorker hw (fun id hid ↦ .inl ⟨hid, fun hmem ↦ ?_⟩) fun t ht ↦ .inl ht
      cases cancelled <;> exact hmem
  | claim locked hw =>
      refine h.setWorker hw (fun id hid ↦ ?_) fun t ht ↦ .inl ht
      rcases unsettled_run_claimBatch hid with hold | hnew
      · refine .inl ⟨hold, fun hmem ↦ ?_⟩
        obtain ⟨job, hjob, hid⟩ := Worker.mem_held.mp hmem
        exact Worker.mem_held.mpr ⟨job, List.mem_append_right _ hjob, hid⟩
      · obtain ⟨job, hjob, hid⟩ := List.mem_map.mp hnew
        exact .inr (Worker.mem_held.mpr ⟨job, List.mem_append_left _ hjob, hid⟩)
  | @hand w job jobs tasks cancelled hw hpermit =>
      refine h.setWorker hw (fun id hid ↦ .inl ⟨hid, fun hmem ↦ ?_⟩) fun t ht ↦ ?_
      · simp only [Worker.held, Worker.waitingJobs, List.map_append, List.map_cons,
          List.map_nil, List.mem_append, List.mem_cons, List.not_mem_nil, or_false] at hmem ⊢
        tauto
      · rcases List.mem_append.mp ht with ht | ht
        · exact .inl ht
        · obtain rfl := List.mem_singleton.mp ht
          exact .inr (writesBack_process cx job)
  | @run w j wk job query next hw hj =>
      have hback := h.writesBack w wk hw _ (List.mem_of_getElem? hj)
      refine h.resume hw hj (fun id hid ↦ unsettled_exec hback.1 hid) ?_
      rcases hback.2 with ⟨hwrites, hret⟩ | hrest
      · exact .inl ⟨hret _, not_unsettled_of_writesOutcome hwrites⟩
      · exact .inr (hrest _)
  | @fault w j wk job query next hw hj r hr =>
      have hback := h.writesBack w wk hw _ (List.mem_of_getElem? hj)
      have hother : query.writesOutcome job.id = false := by
        simpa [careful, hw, hj] using ha
      refine h.resume hw hj (fun id hid ↦ hid) (.inr ?_)
      exact hback.2.resolve_left (by simp [hother]) r
  | @stop w wk hw => exact h.stop hw (by simpa [careful, hw] using ha)

end Invariant

end Queue

/-! ## All runs -/

theorem no_job_lost {cx : Context} {s q : Queue}
    (hrun : (Queue.system cx).Run (fun q a ↦ q.careful a = true) s q) (hnone : s.workers = [])
    (hsettled : ∀ r ∈ s.server.db.jobs, r.status.isSettled = true) : q.NoJobLost := by
  have hstart : s.Covered := by
    refine ⟨?_, fun w wk hw ↦ ?_⟩
    · rintro id ⟨r, hr, -, hstatus⟩
      simp [hsettled r hr] at hstatus
    · simp [Queue.worker, hnone] at hw
  exact (hrun.invariant hstart fun _ _ _ ha hp h ↦ h.perform ha hp).noJobLost

namespace Queue

/-- A worker starts and claims the one due job. -/
def claimed : List Action :=
  [.enqueue 7 "report" "\x7b\x7d" 0, .spawn, .lookUp 0, .scheduleFails 0, .wake 0, .claim 0 []]

/-- It works the job off and shuts down. -/
def workedOff : List Action :=
  claimed ++ [.hand 0, .hand 0, .run 0 0, .shutdown 0, .wake 0, .stop 0]

end Queue

theorem no_job_lost_worked_off :
    ∃ q, (Queue.system .sample).Run (fun q a ↦ q.careful a = true) Queue.empty q ∧
      (q.workers.all Option.isNone && q.server.db.jobs.rows.any fun r ↦ decide (r.attempts = 1)) ∧
        q.NoJobLost := by
  obtain ⟨q, hq, htest⟩ : ∃ q, (Queue.system .sample).Run (fun q a ↦ q.careful a = true)
      Queue.empty q ∧ (q.workers.all Option.isNone &&
        q.server.db.jobs.rows.any fun r ↦ decide (r.attempts = 1)) = true :=
    System.Run.of_schedule Queue.workedOff _ (by decide)
  exact ⟨q, hq, htest, no_job_lost hq rfl (by rintro r ⟨⟩)⟩

/-- A worker that stops before its final write leaves a job running that nobody will claim. -/
theorem claimed_job_can_be_lost :
    ¬∀ (cx : Context) (s q : Queue), (Queue.system cx).Run (fun _ _ ↦ True) s q →
      s.workers = [] → (∀ r ∈ s.server.db.jobs, r.status.isSettled = true) → q.NoJobLost := by
  intro h
  obtain ⟨q, hq, htest⟩ : ∃ q, (Queue.system .sample).Run (fun _ _ ↦ True) Queue.empty q ∧
      (q.workers.all Option.isNone && q.server.db.jobs.rows.any
        fun r ↦ decide (r.status = .running)) = true :=
    System.Run.of_schedule (Queue.claimed ++ [.stop 0]) _ (by decide)
  simp only [Bool.and_eq_true, List.any_eq_true, decide_eq_true_eq] at htest
  obtain ⟨hnone, r, hr, hrunning⟩ := htest
  have hfree : ∀ w wk, q.worker w = some wk → r.id ∉ wk.held := by
    intro w wk hw
    have hmem : some wk ∈ q.workers := List.mem_of_getElem? (Option.join_eq_some_iff.mp hw)
    simpa using List.all_eq_true.mp hnone _ hmem
  simpa [hrunning] using h .sample _ q hq rfl (by rintro r ⟨⟩) r hr hfree

end ApiStarter
