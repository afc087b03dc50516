import ApiStarter.WorkerSteps

/-!
# Claimed jobs and their rows

A job in the hands of a worker is in no other hands, and its row still says
what the worker was told: nothing else writes a running row.  From this follows
what a step can do to a row, whoever takes it.
-/

namespace ApiStarter

open Interleave Interleave.Prog Relational

/-- The job is finished for good. -/
def JobStatus.isFinal : JobStatus → Bool
  | .succeeded | .dead => true
  | .pending | .running | .failed => false

/-! ## What an action does to jobs -/

namespace Queue

/-- The statement task `j` of worker `w` stands before. -/
def statement (q : Queue) (w j : ℕ) : Option Statement :=
  (q.worker w).bind fun wk ↦ wk.tasks[j]?.bind fun t ↦ t.rest.head?

/-- The id and the kind of the job an action inserts, if the statement goes through. -/
def inserts (q : Queue) : Action → Option (Uuid × String)
  | .enqueue id kind _ _ => some (id, kind)
  | .schedule w id =>
      match q.worker w with
      | some ⟨.scheduling false, _, _⟩ => some (id, Cleanup.kind)
      | _ => none
  | .run w j =>
      match q.statement w j with
      | some (.sql (.jobs (.enqueue id kind _ _))) => some (id, kind)
      | _ => none
  | _ => none

/-- The job an action hands to a task, which starts to execute it. -/
def hands (q : Queue) : Action → Option Job
  | .hand w =>
      match q.worker w with
      | some ⟨.handing (job :: _), _, _⟩ => some job
      | _ => none
  | _ => none

/-- The job an action marks succeeded. -/
def succeeds (q : Queue) : Action → Option Uuid
  | .run w j =>
      match q.statement w j with
      | some (.sql (.jobs (.markSucceeded id))) => some id
      | _ => none
  | _ => none

/-- The job an action reschedules or kills after a failure, and the backoff. -/
def fails (q : Queue) : Action → Option (Job × Time)
  | .run w j =>
      match q.statement w j with
      | some (.sql (.jobs (.rescheduleOrKill job _ backoff))) => some (job, backoff)
      | _ => none
  | _ => none

/-- The action writes the outcome of job `id`. -/
def Finishes (q : Queue) (a : Action) (id : Uuid) : Prop :=
  q.succeeds a = some id ∨ ∃ job backoff, q.fails a = some (job, backoff) ∧ job.id = id

def row (q : Queue) (id : Uuid) : Option JobRow := q.server.db.jobs.get? id

end Queue

/-- The row of a job that was claimed and whose outcome is still to be written. -/
structure Claimed (s : Server) (job : Job) (r : JobRow) : Prop where
  row : s.db.jobs.get? job.id = some r
  status : r.status = .running
  job : r.job = job
  due : r.runAt ≤ s.now

theorem Claimed.of_row {s s' : Server} {job : Job} {r : JobRow} (h : Claimed s job r)
    (hrow : s'.db.jobs.get? job.id = some r) (hnow : s.now ≤ s'.now) : Claimed s' job r :=
  ⟨hrow, h.status, h.job, h.due.trans hnow⟩

/-- What workers hold: claimed jobs, each of them once, and tasks that work them off. -/
structure Queue.Custody (q : Queue) : Prop where
  claimed : ∀ w wk, q.worker w = some wk → ∀ job ∈ wk.jobs, ∃ r, Claimed q.server job r
  exclusive : ∀ w w' wk wk', q.worker w = some wk → q.worker w' = some wk' →
    ∀ id ∈ wk.held, id ∈ wk'.held → w = w'
  nodup : ∀ w wk, q.worker w = some wk → wk.held.Nodup
  works : ∀ w wk, q.worker w = some wk → ∀ t ∈ wk.tasks, Works t.job t.rest

/-- What a step can do to the row `id`. -/
inductive RowStep (q : Queue) (a : Queue.Action) (id : Uuid) :
    Option JobRow → Option JobRow → Prop
  | same (o : Option JobRow) : RowStep q a id o o
  | inserted (kind payload : String) (runAt : Time) (h : q.inserts a = some (id, kind)) :
      RowStep q a id none (some (newJob id kind payload runAt q.server.now))
  | claimed {r : JobRow} (hstatus : r.status = .pending) (hdue : r.runAt ≤ q.server.now) :
      RowStep q a id (some r) (some (r.markRunning q.server.now))
  | succeeded {r : JobRow} (hstatus : r.status = .running) (h : q.succeeds a = some id) :
      RowStep q a id (some r) (some (r.succeed q.server.now))
  | failed {r : JobRow} (error : String) (hstatus : r.status = .running)
      (hdue : r.runAt ≤ q.server.now) (h : q.fails a = some (r.job, retryBackoff r.attempts)) :
        RowStep q a id (some r)
        (some (r.failedOnce r.job error (retryBackoff r.attempts) q.server.now))
  | pruned {r : JobRow} (hfinal : r.status.isFinal = true) : RowStep q a id (some r) none

section Rows

variable {cx : Context} {q q' : Queue} {a : Queue.Action} {id : Uuid} {w j : ℕ} {wk : Worker}

theorem statement_eq {job : Job} {query : Statement}
    {next : Statement.Res query → Prog Statement.Res Empty Unit} (hw : q.worker w = some wk)
    (hj : wk.tasks[j]? = some ⟨job, .stmt query next⟩) : q.statement w j = some query := by
  simp [Queue.statement, hw, hj, Prog.head?]

theorem mem_dueJobs {now : Time} {limit : ℕ} {locked : List Uuid} {jobs : Table JobRow.id}
    {r : JobRow} (h : r ∈ dueJobs now limit locked jobs) :
    r ∈ jobs ∧ r.status = .pending ∧ r.runAt ≤ now := by
  have hsel := Table.mem_selectWhere.mp (Table.mem_orderBy.mp (List.mem_of_mem_take h))
  have hdue : r.isDue now = true := ((Bool.and_eq_true _ _).mp hsel.2).1
  unfold JobRow.isDue at hdue
  exact ⟨hsel.1, by simpa using hdue⟩

theorem nodup_dueJobs (now : Time) (limit : ℕ) (locked : List Uuid) (jobs : Table JobRow.id) :
    ((dueJobs now limit locked jobs).map JobRow.id).Nodup := by
  have hsel : ((jobs.selectWhere fun r ↦ r.isDue now && decide (r.id ∉ locked)).map
      JobRow.id).Nodup := jobs.nodup.sublist (List.filter_sublist.map _)
  have hperm := (List.perm_insertionSort (fun a b : JobRow ↦ a.runAt ≤ b.runAt)
    (jobs.selectWhere fun r ↦ r.isDue now && decide (r.id ∉ locked))).map JobRow.id
  exact (hperm.nodup_iff.mpr hsel).sublist ((List.take_sublist _ _).map _)

/-- The only row an insert adds is the new one, and only where there was none. -/
theorem row_insert {jobs jobs' : Table JobRow.id} {id' : Uuid} {kind payload : String}
    {runAt now : Time} (h : jobs.insert? (newJob id' kind payload runAt now) = some jobs')
    (id : Uuid) : jobs'.get? id = jobs.get? id ∨ id' = id ∧ jobs.get? id = none ∧
      jobs'.get? id = some (newJob id kind payload runAt now) := by
  obtain ⟨hnone, hget⟩ := Table.insert?_eq_some h
  have hid := hget id
  by_cases heq : id' = id
  · subst heq
    exact .inr ⟨rfl, hnone, by simpa [newJob] using hid⟩
  · exact .inl (by simpa [newJob, heq] using hid)

theorem row_enqueue (id : Uuid) {id' : Uuid} {kind payload : String} {runAt : Time}
    (hinserts : q.inserts a = some (id', kind)) : RowStep q a id (q.row id)
      (((JobSql.enqueue id' kind payload runAt).run q.server.now q.server.db.jobs).2.get? id) := by
  simp only [JobSql.run]
  split
  · exact .same _
  next hinsert =>
    rcases row_insert hinsert id with hsame | ⟨rfl, hnone, hnew⟩
    · rw [hsame]
      exact .same _
    · rw [hnew, Queue.row, hnone]
      exact .inserted kind payload runAt hinserts

theorem row_ensureScheduled (id : Uuid) {id' : Uuid} {scheduled : Bool}
    (hinserts : scheduled = false → q.inserts a = some (id', Cleanup.kind)) :
    RowStep q a id (q.row id) (((JobSql.ensureScheduled scheduled id' Cleanup.kind).run
      q.server.now q.server.db.jobs).2.get? id) := by
  cases scheduled with
  | true => exact .same _
  | false => exact row_enqueue id (hinserts rfl)

theorem row_claimBatch (id : Uuid) (limit : ℕ) (locked : List Uuid) :
    RowStep q a id (q.row id)
      (((JobSql.claimBatch limit locked).run q.server.now q.server.db.jobs).2.get? id) := by
  simp only [JobSql.run]
  rw [Table.get?_updateWhere, Queue.row]
  cases hrow : q.server.db.jobs.get? id with
  | none => exact .same _
  | some r =>
      rw [Option.map_some]
      split
      next hclaimed =>
        obtain ⟨r', hr', hid⟩ := List.mem_map.mp (of_decide_eq_true hclaimed)
        obtain ⟨hmem, hpending, hdue⟩ := mem_dueJobs hr'
        obtain rfl : r' = r := Table.eq_of_mem hmem (Table.mem_of_get? hrow) hid
        exact .claimed hpending hdue
      next => exact .same _

theorem get?_claimBatch {now : Time} {limit : ℕ} {locked : List Uuid} {jobs : Table JobRow.id}
    {r : JobRow} (h : r ∈ dueJobs now limit locked jobs) :
    ((JobSql.claimBatch limit locked).run now jobs).2.get? r.id = some (r.markRunning now) := by
  have hin : r.id ∈ (dueJobs now limit locked jobs).map JobRow.id := List.mem_map_of_mem h
  simp only [JobSql.run]
  rw [Table.get?_updateWhere_some (Table.get?_of_mem (mem_dueJobs h).1), decide_eq_true hin,
    if_pos rfl]

theorem get?_markSucceeded {jobs : Table JobRow.id} {id : Uuid} {r : JobRow}
    (hrow : jobs.get? id = some r) (now : Time) :
    ((JobSql.markSucceeded id).run now jobs).2.get? id = some (r.succeed now) := by
  simp only [JobSql.run]
  rw [Table.get?_updateKey, if_pos rfl, hrow]
  rfl

theorem get?_rescheduleOrKill {jobs : Table JobRow.id} {job : Job} {r : JobRow}
    (hrow : jobs.get? job.id = some r) (error : String) (backoff now : Time) :
    ((JobSql.rescheduleOrKill job error backoff).run now jobs).2.get? job.id =
      some (r.failedOnce job error backoff now) := by
  simp only [JobSql.run]
  rw [Table.get?_updateKey, if_pos rfl, hrow]
  rfl

theorem row_markSucceeded (id : Uuid) {job : Job} {r : JobRow} (hr : Claimed q.server job r)
    (hsucceeds : q.succeeds a = some job.id) : RowStep q a id (q.row id)
      (((JobSql.markSucceeded job.id).run q.server.now q.server.db.jobs).2.get? id) := by
  simp only [JobSql.run]
  rw [Table.get?_updateKey]
  split
  next heq =>
    subst heq
    rw [Queue.row, hr.row]
    exact .succeeded hr.status hsucceeds
  next => exact .same _

theorem row_rescheduleOrKill (id : Uuid) {job : Job} {r : JobRow} (error : String)
    (hr : Claimed q.server job r) (hfails : q.fails a = some (job, retryBackoff job.attempts)) :
    RowStep q a id (q.row id) (((JobSql.rescheduleOrKill job error
      (retryBackoff job.attempts)).run q.server.now q.server.db.jobs).2.get? id) := by
  simp only [JobSql.run]
  rw [Table.get?_updateKey]
  split
  next heq =>
    subst heq
    obtain rfl := hr.job
    rw [Queue.row, hr.row]
    exact .failed error hr.status hr.due hfails
  next => exact .same _

theorem row_prune (id : Uuid) {status : JobStatus} (cutoff : Time)
    (hfinal : status.isFinal = true) : RowStep q a id (q.row id)
      (((JobSql.prune status cutoff).run q.server.now q.server.db.jobs).2.get? id) := by
  simp only [JobSql.run]
  rw [Table.get?_deleteWhere, Queue.row]
  cases hrow : q.server.db.jobs.get? id with
  | none => exact .same _
  | some r =>
      rw [Option.filter_some]
      split
      · exact .same _
      next hpruned =>
        refine .pruned ?_
        simp only [Bool.not_eq_true, Bool.not_eq_false', Bool.and_eq_true, decide_eq_true_eq]
          at hpruned
        rw [hpruned.1, hfinal]

/-- Statements that are neither the outcome of a job nor a new one. -/
theorem row_upkeep (id : Uuid) {query : Statement} (hquery : query.isUpkeep = true) :
    RowStep q a id (q.row id) (((machine cx).exec query q.server).2.db.jobs.get? id) := by
  cases query with
  | sql query =>
      cases query with
      | jobs query =>
          cases query with
          | prune status cutoff =>
              have hfinal : status.isFinal = true := by cases status <;> first | rfl | cases hquery
              exact row_prune id cutoff hfinal
          | _ => cases hquery
      | _ => exact .same _
  | _ => exact .same _

/-- One statement of a task. -/
theorem row_run (id : Uuid) {job : Job} {r : JobRow} {query : Statement}
    {next : Statement.Res query → Prog Statement.Res Empty Unit} (hr : Claimed q.server job r)
    (hworks : Works job (.stmt query next)) (hquery : q.statement w j = some query) :
    RowStep q (.run w j) id (q.row id)
      (((machine cx).exec query q.server).2.db.jobs.get? id) := by
  cases hworks with
  | succeed => exact row_markSucceeded id hr (by simp [Queue.succeeds, hquery])
  | giveUp => exact row_rescheduleOrKill id _ hr (by simp [Queue.fails, hquery])
  | reEnqueue => exact row_enqueue id (by simp [Queue.inserts, hquery])
  | upkeep hupkeep => exact row_upkeep id hupkeep

theorem row_step (h : q.Custody) (hs : Queue.Steps cx q a q') (id : Uuid) :
    RowStep q a id (q.row id) (q'.row id) := by
  cases hs with
  | enqueue id' kind payload runAt => exact row_enqueue id rfl
  | schedule id' hw =>
      apply row_ensureScheduled id
      rintro rfl
      simp [Queue.inserts, hw]
  | claim locked hw => exact row_claimBatch id claimBatchSize locked
  | @run w j wk job query next hw hj =>
      have hmem := List.mem_of_getElem? hj
      obtain ⟨r, hr⟩ := h.claimed w wk hw job (Worker.mem_jobs_of_task hmem)
      exact row_run id hr (h.works w wk hw _ hmem) (statement_eq hw hj)
  | _ => exact .same _

/-- A failure is written on the row of the job that failed. -/
theorem fails_step (h : q.Custody) (hs : Queue.Steps cx q a q') {job : Job} {backoff : Time}
    (hfails : q.fails a = some (job, backoff)) : ∃ r error, Claimed q.server job r ∧
      q'.row job.id = some (r.failedOnce job error backoff q.server.now) := by
  cases hs with
  | @run w j wk job' query next hw hj =>
      have hmem := List.mem_of_getElem? hj
      have hworks : Works job' (.stmt query next) := h.works w wk hw _ hmem
      obtain ⟨r, hr⟩ := h.claimed w wk hw job' (Worker.mem_jobs_of_task hmem)
      simp only [Queue.fails, statement_eq hw hj] at hfails
      split at hfails
      next job₀ error backoff₀ heq =>
        cases heq
        cases hfails
        have hgives : job' = job ∧ backoff = retryBackoff job.attempts := by
          cases hworks with
          | giveUp => exact ⟨rfl, rfl⟩
          | upkeep hupkeep => cases hupkeep
        obtain ⟨rfl, rfl⟩ := hgives
        exact ⟨r, error, hr, get?_rescheduleOrKill hr.row error _ _⟩
      next => cases hfails
  | _ => cases hfails

end Rows

/-! ## Custody is kept -/

section Custody

variable {cx : Context} {q q' : Queue} {a : Queue.Action} {w : ℕ} {wk wk' : Worker}
  {server : Server}

theorem now_le_of_steps (hs : Queue.Steps cx q a q') : q.server.now ≤ q'.server.now := by
  cases hs with
  | tick ticks => exact Int.le_add_of_nonneg_right (Int.natCast_nonneg ticks)
  | @run w j wk job query next hw hj => cases query <;> exact le_rfl
  | _ => exact le_rfl

/-- Only the one who holds a job changes its row. -/
theorem Claimed.step {job : Job} {r : JobRow} (hr : Claimed q.server job r) (h : q.Custody)
    (hs : Queue.Steps cx q a q') (hfinishes : ¬q.Finishes a job.id) :
    Claimed q'.server job r := by
  have hstep := row_step h hs job.id
  refine hr.of_row ?_ (now_le_of_steps hs)
  change q'.row job.id = some r
  rw [show q.row job.id = some r from hr.row] at hstep
  generalize q'.row job.id = o at hstep
  cases hstep with
  | same => rfl
  | claimed hpending => cases hpending.symm.trans hr.status
  | succeeded _ hsucceeds => exact absurd (.inl hsucceeds) hfinishes
  | failed _ _ _ hfails => exact absurd (.inr ⟨_, _, hfails, by rw [hr.job]⟩) hfinishes
  | pruned hfinal =>
      rw [hr.status] at hfinal
      cases hfinal

end Custody

namespace Queue

variable {cx : Context} {q q' : Queue} {a : Action} {w j : ℕ} {wk wk' : Worker} {server : Server}

/-- A step that one worker takes. It may let go of jobs, and take some that nobody holds. -/
theorem Custody.advance (h : q.Custody) (hw : q.worker w = some wk)
    (hs : Queue.Steps cx q a (q.advance w server wk'))
    (hfinishes : ∀ id, q.Finishes a id → id ∈ wk.held ∧ id ∉ wk'.held) (hnodup : wk'.held.Nodup)
    (hjobs : ∀ job ∈ wk'.jobs, job ∈ wk.jobs ∨
      (∃ r, Claimed server job r) ∧ ∀ r, q.row job.id = some r → r.status ≠ .running)
    (htasks : ∀ t ∈ wk'.tasks, t ∈ wk.tasks ∨ Works t.job t.rest) :
    (q.advance w server wk').Custody := by
  have hworker : ∀ w', (q.advance w server wk').worker w' =
      if w' = w then some wk' else q.worker w' := fun w' ↦ worker_advance hw server wk'
  -- whoever held a job and still does
  have hkept : ∀ w' wk₀, q.worker w' = some wk₀ → ∀ job ∈ wk₀.jobs, ¬q.Finishes a job.id →
      ∃ r, Claimed server job r := by
    intro w' wk₀ hw' job hjob hno
    obtain ⟨r, hr⟩ := h.claimed w' wk₀ hw' job hjob
    exact ⟨r, hr.step h hs hno⟩
  have hfree : ∀ w' wk₀, w' ≠ w → q.worker w' = some wk₀ → ∀ id ∈ wk₀.held, id ∉ wk'.held := by
    intro w' wk₀ hne hw' id hid hmem
    obtain ⟨job, hjob, rfl⟩ := Worker.mem_held.mp hmem
    rcases hjobs job hjob with hold | ⟨-, hnew⟩
    · exact hne (h.exclusive w' w wk₀ wk hw' hw job.id hid (Worker.mem_held.mpr ⟨job, hold, rfl⟩))
    · obtain ⟨job', hjob', heq⟩ := Worker.mem_held.mp hid
      obtain ⟨r, hr⟩ := h.claimed w' wk₀ hw' job' hjob'
      exact hnew r (heq ▸ hr.row) hr.status
  constructor
  · intro w' wk₀ hw' job hjob
    rw [hworker] at hw'
    split at hw'
    next =>
      cases hw'
      rcases hjobs job hjob with hold | ⟨hnew, -⟩
      · refine hkept w wk hw job hold fun hfin ↦ ?_
        exact (hfinishes job.id hfin).2 (Worker.mem_held.mpr ⟨job, hjob, rfl⟩)
      · exact hnew
    next hne =>
      refine hkept w' wk₀ hw' job hjob fun hfin ↦ hne ?_
      have hid : job.id ∈ wk₀.held := Worker.mem_held.mpr ⟨job, hjob, rfl⟩
      exact h.exclusive w' w wk₀ wk hw' hw job.id hid (hfinishes job.id hfin).1
  · intro w₁ w₂ wk₁ wk₂ hw₁ hw₂ id h₁ h₂
    rw [hworker] at hw₁ hw₂
    split at hw₁ <;> split at hw₂
    next heq₁ heq₂ => rw [heq₁, heq₂]
    next heq₁ hne₂ =>
      cases hw₁
      exact absurd h₁ (hfree w₂ wk₂ hne₂ hw₂ id h₂)
    next hne₁ heq₂ =>
      cases hw₂
      exact absurd h₂ (hfree w₁ wk₁ hne₁ hw₁ id h₁)
    next => exact h.exclusive w₁ w₂ wk₁ wk₂ hw₁ hw₂ id h₁ h₂
  · intro w' wk₀ hw'
    rw [hworker] at hw'
    split at hw'
    next =>
      cases hw'
      exact hnodup
    next => exact h.nodup w' wk₀ hw'
  · intro w' wk₀ hw' t ht
    rw [hworker] at hw'
    split at hw'
    next =>
      cases hw'
      exact (htasks t ht).elim (h.works w wk hw t) id
    next => exact h.works w' wk₀ hw' t ht

/-- A step that writes no outcome and lets the worker hold what it held. -/
theorem Custody.idle (h : q.Custody) (hw : q.worker w = some wk)
    (hs : Steps cx q a (q.advance w server wk')) (hfinishes : ∀ id, ¬q.Finishes a id)
    (hjobs : wk'.jobs = wk.jobs) (htasks : wk'.tasks = wk.tasks) :
    (q.advance w server wk').Custody := by
  have hheld : wk'.held = wk.held := congrArg (List.map Job.id) hjobs
  refine h.advance hw hs (fun id hfin ↦ absurd hfin (hfinishes id)) ?_ ?_ ?_
  · rw [hheld]
    exact h.nodup w wk hw
  · intro job hjob
    exact .inl (hjobs ▸ hjob)
  · intro t ht
    exact .inl (htasks ▸ ht)

/-- A step that changes no worker and writes no outcome. -/
theorem Custody.outside (h : q.Custody) (hs : Steps cx q a q') (hfinishes : ∀ id, ¬q.Finishes a id)
    (hworker : ∀ w wk, q'.worker w = some wk → q.worker w = some wk ∨ wk = .spawned) :
    q'.Custody := by
  constructor
  · intro w wk hw job hjob
    rcases hworker w wk hw with hw | rfl
    · obtain ⟨r, hr⟩ := h.claimed w wk hw job hjob
      exact ⟨r, hr.step h hs (hfinishes job.id)⟩
    · cases hjob
  · intro w₁ w₂ wk₁ wk₂ hw₁ hw₂ id h₁ h₂
    rcases hworker w₁ wk₁ hw₁ with hw₁ | rfl
    · rcases hworker w₂ wk₂ hw₂ with hw₂ | rfl
      · exact h.exclusive w₁ w₂ wk₁ wk₂ hw₁ hw₂ id h₁ h₂
      · cases h₂
    · cases h₁
  · intro w wk hw
    rcases hworker w wk hw with hw | rfl
    · exact h.nodup w wk hw
    · exact List.nodup_nil
  · intro w wk hw t ht
    rcases hworker w wk hw with hw | rfl
    · exact h.works w wk hw t ht
    · cases ht

theorem Custody.claim (h : q.Custody) {tasks : List Task} {cancelled : Bool} {locked : List Uuid}
    {due : List JobRow} (hdue : dueJobs q.server.now claimBatchSize locked q.server.db.jobs = due)
    (hw : q.worker w = some ⟨.claiming, tasks, cancelled⟩)
    (hs : Steps cx q (.claim w locked) (q.advance w
      (q.runJobs (.claimBatch claimBatchSize locked)).server
      ⟨.handing (due.map JobRow.job), tasks, cancelled⟩)) :
    (q.advance w (q.runJobs (.claimBatch claimBatchSize locked)).server
      ⟨.handing (due.map JobRow.job), tasks, cancelled⟩).Custody := by
  subst hdue
  have hpending : ∀ r ∈ dueJobs q.server.now claimBatchSize locked q.server.db.jobs,
      q.row r.id = some r ∧ r.status = .pending := by
    intro r hr
    obtain ⟨hmem, hpending, -⟩ := mem_dueJobs hr
    exact ⟨Table.get?_of_mem hmem, hpending⟩
  refine h.advance hw hs ?_ ?_ ?_ fun t ht ↦ .inl ht
  · rintro id (hsucceeds | ⟨_, _, hfails, -⟩)
    · cases hsucceeds
    · cases hfails
  · have hids : (((dueJobs q.server.now claimBatchSize locked q.server.db.jobs).map
        JobRow.job).map Job.id).Nodup := by
      simpa [JobRow.job, Function.comp_def] using
        nodup_dueJobs q.server.now claimBatchSize locked q.server.db.jobs
    unfold Worker.held
    rw [List.map_append, List.nodup_append]
    refine ⟨hids, ?_, ?_⟩
    · simpa [Worker.held, Worker.waitingJobs] using h.nodup w _ hw
    · -- a claimed row was pending, the rows of the tasks were running
      rintro id hnew _ hold rfl
      obtain ⟨job, hjob, rfl⟩ := List.mem_map.mp hold
      obtain ⟨r₀, hr₀⟩ := h.claimed w _ hw job hjob
      obtain ⟨_, hmem, heq⟩ := List.mem_map.mp hnew
      obtain ⟨r, hr, rfl⟩ := List.mem_map.mp hmem
      obtain ⟨hrow, hstatus⟩ := hpending r hr
      have hid : r.id = job.id := heq
      rw [hid] at hrow
      obtain rfl : r = r₀ := Option.some.inj (hrow.symm.trans hr₀.row)
      cases hstatus.symm.trans hr₀.status
  · intro job hjob
    rcases List.mem_append.mp hjob with hnew | htask
    · obtain ⟨r, hr, rfl⟩ := List.mem_map.mp hnew
      obtain ⟨hrow, hstatus⟩ := hpending r hr
      refine .inr ⟨⟨r.markRunning q.server.now, get?_claimBatch hr, rfl, rfl,
        (mem_dueJobs hr).2.2⟩, ?_⟩
      intro r' hr'
      obtain rfl : r = r' := Option.some.inj (hrow.symm.trans hr')
      simp [hstatus]
    · exact .inl htask

theorem Custody.hand (h : q.Custody) {job : Job} {jobs : List Job} {tasks : List Task}
    {cancelled : Bool} (hw : q.worker w = some ⟨.handing (job :: jobs), tasks, cancelled⟩)
    (hs : Steps cx q (.hand w) (q.advance w q.server
      ⟨.handing jobs, tasks ++ [⟨job, process cx job⟩], cancelled⟩)) :
    (q.advance w q.server
      ⟨.handing jobs, tasks ++ [⟨job, process cx job⟩], cancelled⟩).Custody := by
  have hperm : (Worker.jobs ⟨.handing jobs, tasks ++ [⟨job, process cx job⟩], cancelled⟩).Perm
      (Worker.jobs ⟨.handing (job :: jobs), tasks, cancelled⟩) := by
    simp only [Worker.jobs, Worker.waitingJobs, List.map_append, List.map_cons, List.map_nil,
      ← List.append_assoc]
    exact List.perm_append_comm
  refine h.advance hw hs ?_ ?_ (fun job hjob ↦ .inl (hperm.mem_iff.mp hjob)) ?_
  · rintro id (hsucceeds | ⟨_, _, hfails, -⟩)
    · cases hsucceeds
    · cases hfails
  · exact (hperm.map Job.id).nodup_iff.mpr (h.nodup w _ hw)
  · intro t ht
    rcases List.mem_append.mp ht with ht | ht
    · exact .inl ht
    · obtain rfl := List.mem_singleton.mp ht
      exact .inr (works_process cx job).1

/-- A task goes on, whether its statement went through or failed. -/
theorem Custody.resume (h : q.Custody) {job : Job} {p rest : Prog Statement.Res Empty Unit}
    (hw : q.worker w = some wk) (hj : wk.tasks[j]? = some ⟨job, p⟩)
    (hs : Steps cx q a (q.advance w server (wk.resume j job rest)))
    (hfinishes : ∀ id, q.Finishes a id → id = job.id ∧ rest = .ret ())
    (hworks : rest = .ret () ∨ Works job rest) :
    (q.advance w server (wk.resume j job rest)).Custody := by
  have hsub := Worker.jobs_resume_sublist rest hj
  refine h.advance hw hs ?_ ?_ (fun job hjob ↦ .inl (hsub.subset hjob)) ?_
  · intro id hfin
    obtain ⟨rfl, rfl⟩ := hfinishes id hfin
    refine ⟨?_, Worker.not_mem_held_resume hj (h.nodup w wk hw)⟩
    exact Worker.mem_held.mpr ⟨job, Worker.mem_jobs_of_task (List.mem_of_getElem? hj), rfl⟩
  · exact (h.nodup w wk hw).sublist (hsub.map Job.id)
  · intro t ht
    rcases Worker.mem_tasks_resume ht with ht | ⟨rfl, hne⟩
    · exact .inl ht
    · exact .inr (hworks.resolve_left hne)

theorem Custody.stop (h : q.Custody) (hw : q.worker w = some wk) :
    (q.setWorker w none).Custody := by
  have hworker : ∀ w' wk', (q.setWorker w none).worker w' = some wk' → q.worker w' = some wk' := by
    intro w' wk' hw'
    rw [worker_setWorker hw] at hw'
    split at hw'
    · cases hw'
    · exact hw'
  exact ⟨fun w' wk' hw' ↦ h.claimed w' wk' (hworker w' wk' hw'),
    fun w₁ w₂ wk₁ wk₂ hw₁ hw₂ ↦ h.exclusive w₁ w₂ wk₁ wk₂ (hworker w₁ wk₁ hw₁) (hworker w₂ wk₂ hw₂),
    fun w' wk' hw' ↦ h.nodup w' wk' (hworker w' wk' hw'),
    fun w' wk' hw' ↦ h.works w' wk' (hworker w' wk' hw')⟩

/-- Only a statement of a task writes an outcome. -/
theorem not_finishes (ha : ∀ w j, a ≠ .run w j) (id : Uuid) : ¬q.Finishes a id := by
  rintro (hsucceeds | ⟨_, _, hfails, -⟩)
  · cases a with
    | run w j => exact ha w j rfl
    | _ => cases hsucceeds
  · cases a with
    | run w j => exact ha w j rfl
    | _ => cases hfails

/-- A task writes the outcome of its own job, and then returns. -/
theorem finishes_run {job : Job} {query : Statement}
    {next : Statement.Res query → Prog Statement.Res Empty Unit} {id : Uuid}
    (hworks : Works job (.stmt query next)) (hquery : q.statement w j = some query)
    (hfin : q.Finishes (.run w j) id) (r : Statement.Res query) :
    id = job.id ∧ next r = .ret () := by
  simp only [Finishes, succeeds, fails, hquery] at hfin
  cases hworks with
  | succeed hret =>
      have hid : job.id = id := by simpa using hfin
      exact ⟨hid.symm, hret r⟩
  | giveUp hret =>
      have hid : job.id = id := by simpa using hfin
      exact ⟨hid.symm, hret r⟩
  | reEnqueue => simp at hfin
  | upkeep hupkeep =>
      exfalso
      rcases hfin with hsucceeds | ⟨_, _, hfails, -⟩
      · split at hsucceeds
        next heq =>
          cases heq
          cases hupkeep
        next => cases hsucceeds
      · split at hfails
        next heq =>
          cases heq
          cases hupkeep
        next => cases hfails

theorem Custody.step (h : q.Custody) (hs : Steps cx q a q') : q'.Custody := by
  have hs' := hs
  cases hs' with
  | tick | enqueue => exact h.outside hs (not_finishes (by simp)) fun _ _ hw ↦ .inl hw
  | spawn => exact h.outside hs (not_finishes (by simp)) fun _ _ hw ↦ worker_spawn hw
  | claim locked hw => exact h.claim rfl hw hs
  | hand hw => exact h.hand hw hs
  | @wake w tasks cancelled hw =>
      refine h.idle hw hs (not_finishes (by simp)) ?_ rfl
      cases cancelled <;> rfl
  | lookUp hw | schedule _ hw | scheduleFails hw | claimFails hw | handed hw | shutdown hw =>
      exact h.idle hw hs (not_finishes (by simp)) rfl rfl
  | stop hw => exact h.stop hw
  | @fault w j wk job query next hw hj r hr =>
      have hworks : Works job (.stmt query next) := h.works w wk hw _ (List.mem_of_getElem? hj)
      exact h.resume hw hj hs (fun id hfin ↦ absurd hfin (not_finishes (by simp) id))
        (hworks.next r)
  | @run w j wk job query next hw hj =>
      have hworks : Works job (.stmt query next) := h.works w wk hw _ (List.mem_of_getElem? hj)
      exact h.resume hw hj hs (fun id hfin ↦ finishes_run hworks (statement_eq hw hj) hfin _)
        (hworks.next _)

theorem Custody.start (hnone : q.workers = []) : q.Custody := by
  have hworker : ∀ w wk, q.worker w ≠ some wk := by simp [worker, hnone]
  exact ⟨fun w wk hw ↦ absurd hw (hworker w wk), fun w w' wk wk' hw ↦ absurd hw (hworker w wk),
    fun w wk hw ↦ absurd hw (hworker w wk), fun w wk hw ↦ absurd hw (hworker w wk)⟩

/-- A job is worked off by one task. -/
theorem Custody.task_unique (h : q.Custody) (hw : q.worker w = some wk) {t t' : Task}
    (ht : t ∈ wk.tasks) {w' : ℕ} (hw' : q.worker w' = some wk') (ht' : t' ∈ wk'.tasks)
    (hid : t'.job.id = t.job.id) : w' = w ∧ t' = t := by
  have hin : t.job.id ∈ wk.held := Worker.mem_held.mpr ⟨_, Worker.mem_jobs_of_task ht, rfl⟩
  have hin' : t.job.id ∈ wk'.held := Worker.mem_held.mpr ⟨_, Worker.mem_jobs_of_task ht', hid⟩
  obtain rfl := h.exclusive w' w wk' wk hw' hw _ hin' hin
  obtain rfl : wk = wk' := Option.some.inj (hw.symm.trans hw')
  have hnodup := h.nodup w' wk hw
  unfold Worker.held at hnodup
  rw [List.map_append, List.nodup_append, List.map_map] at hnodup
  exact ⟨rfl, List.inj_on_of_nodup_map hnodup.2.1 ht' ht hid⟩

end Queue

end ApiStarter
