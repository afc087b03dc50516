import ApiStarter.JobCustody

/-!
# The recurring cleanup job

A finished cleanup has already enqueued its successor, so the schedule is a
chain with one open end.  Between the insert and `mark_succeeded` both jobs are
active; a task that stands there answers for the older one.
-/

namespace ApiStarter

open Interleave Interleave.Prog Relational

def JobRow.isActiveCleanup (r : JobRow) : Bool := decide (r.kind = Cleanup.kind) && r.isActive

def Worker.Succeeding (wk : Worker) (id : Uuid) : Prop :=
  ∃ t ∈ wk.tasks, t.job.id = id ∧ succeedsNext t.rest = true

namespace Queue

/-- How many cleanup jobs are pending or running. -/
def cleanups (q : Queue) : ℕ := q.server.db.jobs.countWhere JobRow.isActiveCleanup

/-- No job step is in flight. -/
def Quiet (q : Queue) : Prop := ∀ w wk, q.worker w = some wk → wk.tasks = []

/-- `ensure_scheduled` returns without an error. -/
def schedules (q : Queue) : Action → Bool
  | .schedule w id =>
      match q.worker w with
      | some ⟨.scheduling scheduled, _, _⟩ =>
          ((JobSql.ensureScheduled scheduled id Cleanup.kind).run
            q.server.now q.server.db.jobs).1.isSome
      | _ => false
  | _ => false

/-- Nothing but the worker enqueues a cleanup. -/
def ownSchedule (_ : Queue) : Action → Bool
  | .enqueue _ kind _ _ => decide (kind ≠ Cleanup.kind)
  | _ => true

/-- What `ensure_scheduled` saw still holds when it inserts; a cleanup is not given up; and
one that has enqueued its successor is marked succeeded, with no failure and no stop before. -/
def keepsChain (q : Queue) : Action → Bool
  | .schedule w _ =>
      match q.worker w with
      | some ⟨.scheduling false, _, _⟩ => !isScheduled Cleanup.kind q.server.db.jobs
      | _ => true
  | .run w j =>
      (q.fails (.run w j)).all fun f ↦ !(decide (f.1.kind = Cleanup.kind) && f.1.isSpent)
  | .fault w j =>
      match q.statement w j with
      | some (.sql (.jobs (.markSucceeded _))) => false
      | _ => true
  | .stop w => (q.worker w).all fun wk ↦ wk.tasks.all fun t ↦ !succeedsNext t.rest
  | _ => true

def Active (q : Queue) (id : Uuid) : Prop := ∃ r, q.row id = some r ∧ r.isActiveCleanup = true

/-- A task has enqueued the successor of its cleanup and has yet to mark it succeeded. -/
def Succeeding (q : Queue) (id : Uuid) : Prop :=
  ∃ w wk, q.worker w = some wk ∧ wk.Succeeding id

/-- The open end of the chain, if a cleanup has been scheduled, is active, and so is no
other cleanup but those that are being marked succeeded. -/
structure Chain (q : Queue) (last : Option Uuid) : Prop where
  active : ∀ id, q.Active id → last = some id ∨ q.Succeeding id
  openEnd : ∀ id, last = some id → q.Active id ∧ ¬q.Succeeding id
  idle : last = none → (∀ id, ¬q.Active id) ∧
    ∀ w wk, q.worker w = some wk → wk.loop ≠ .scheduling true

section Step

variable {cx : Context} {q q' : Queue} {a : Action} {id : Uuid} {w j : ℕ} {wk wk' : Worker}
  {server : Server} {last : Option Uuid}

theorem isScheduled_iff :
    isScheduled Cleanup.kind q.server.db.jobs = true ↔ ∃ id, q.Active id := by
  unfold isScheduled
  rw [decide_eq_true_iff, Table.countWhere_pos]
  constructor
  · rintro ⟨r, hr, hactive⟩
    exact ⟨r.id, r, Table.get?_of_mem hr, hactive⟩
  · rintro ⟨id, r, hr, hactive⟩
    exact ⟨r, Table.mem_of_get? hr, hactive⟩

/-! ## Rows -/

theorem isActiveCleanup_eq_true {r : JobRow} : r.isActiveCleanup = true ↔
    r.kind = Cleanup.kind ∧ (r.status = .pending ∨ r.status = .running) := by
  simp [JobRow.isActiveCleanup, JobRow.isActive]

theorem Active.of_newJob {payload : String} {runAt now : Time}
    (hrow : q.row id = some (newJob id Cleanup.kind payload runAt now)) : q.Active id :=
  ⟨_, hrow, isActiveCleanup_eq_true.mpr ⟨rfl, .inl rfl⟩⟩

/-- A cleanup becomes active when it is inserted. -/
theorem Active.of_step (hstep : RowStep q a id (q.row id) (q'.row id)) (h : q'.Active id) :
    q.Active id ∨ q.row id = none ∧ q.inserts a = some (id, Cleanup.kind) := by
  obtain ⟨r', hr', hactive⟩ := h
  rw [hr'] at hstep
  obtain ⟨hkind, hstatus⟩ := isActiveCleanup_eq_true.mp hactive
  generalize hrow : q.row id = o at hstep
  cases hstep with
  | same => exact .inl ⟨r', hrow, hactive⟩
  | inserted kind payload runAt hinserts =>
      obtain rfl : kind = Cleanup.kind := hkind
      exact .inr ⟨rfl, hinserts⟩
  | @claimed r hpending =>
      exact .inl ⟨r, hrow, isActiveCleanup_eq_true.mpr ⟨hkind, .inl hpending⟩⟩
  | succeeded => rcases hstatus with hstatus | hstatus <;> cases hstatus
  | @failed r error hrunning =>
      exact .inl ⟨r, hrow, isActiveCleanup_eq_true.mpr ⟨hkind, .inr hrunning⟩⟩

/-- It stays active until it has succeeded or is given up. -/
theorem Active.step (hstep : RowStep q a id (q.row id) (q'.row id))
    (hgiven : ∀ job backoff, q.fails a = some (job, backoff) → job.kind = Cleanup.kind →
      job.isSpent = false) (hsucceeds : q.succeeds a ≠ some id) (h : q.Active id) :
    q'.Active id := by
  obtain ⟨r, hr, hactive⟩ := h
  rw [hr] at hstep
  obtain ⟨hkind, hstatus⟩ := isActiveCleanup_eq_true.mp hactive
  generalize hrow' : q'.row id = o at hstep
  cases hstep with
  | same => exact ⟨r, hrow', hactive⟩
  | claimed => exact ⟨_, hrow', isActiveCleanup_eq_true.mpr ⟨hkind, .inr rfl⟩⟩
  | succeeded _ h => exact absurd h hsucceeds
  | failed error _ _ hfails =>
      have hspent := hgiven _ _ hfails hkind
      refine ⟨_, hrow', isActiveCleanup_eq_true.mpr ⟨hkind, .inl ?_⟩⟩
      simp [JobRow.failedOnce, hspent]
  | pruned hfinal =>
      rcases hstatus with hstatus | hstatus <;> simp [hstatus, JobStatus.isFinal] at hfinal

/-! ## Tasks -/

theorem Succeeding.of_advance (hw : q.worker w = some wk) :
    (q.advance w server wk').Succeeding id ↔ wk'.Succeeding id ∨
      ∃ w' wk₀, w' ≠ w ∧ q.worker w' = some wk₀ ∧ wk₀.Succeeding id := by
  constructor
  · rintro ⟨w', wk₀, hw', hsucceeding⟩
    rw [worker_advance hw] at hw'
    split at hw'
    next =>
      cases hw'
      exact .inl hsucceeding
    next hne => exact .inr ⟨w', wk₀, hne, hw', hsucceeding⟩
  · rintro (hsucceeding | ⟨w', wk₀, hne, hw', hsucceeding⟩)
    · exact ⟨w, wk', (worker_advance hw server wk').trans (if_pos rfl), hsucceeding⟩
    · exact ⟨w', wk₀, ((worker_advance hw server wk').trans (if_neg hne)).trans hw', hsucceeding⟩

/-- A worker whose tasks are the same, up to where they do not matter. -/
theorem succeeding_advance (hw : q.worker w = some wk)
    (hsame : ∀ id, wk'.Succeeding id ↔ wk.Succeeding id) (id : Uuid) :
    (q.advance w server wk').Succeeding id ↔ q.Succeeding id := by
  rw [Succeeding.of_advance hw]
  constructor
  · rintro (hsucceeding | ⟨w', wk₀, -, hw', hsucceeding⟩)
    · exact ⟨w, wk, hw, (hsame id).mp hsucceeding⟩
    · exact ⟨w', wk₀, hw', hsucceeding⟩
  · rintro ⟨w', wk₀, hw', hsucceeding⟩
    by_cases heq : w' = w
    · subst heq
      obtain rfl : wk = wk₀ := Option.some.inj (hw.symm.trans hw')
      exact .inl ((hsame id).mpr hsucceeding)
    · exact .inr ⟨w', wk₀, heq, hw', hsucceeding⟩

theorem succeeding_iff (h : q.Custody) (hw : q.worker w = some wk) {t : Task} (ht : t ∈ wk.tasks) :
    q.Succeeding t.job.id ↔ succeedsNext t.rest = true := by
  constructor
  · rintro ⟨w', wk', hw', t', ht', hid, hnext⟩
    obtain ⟨-, rfl⟩ := h.task_unique hw ht hw' ht' hid
    exact hnext
  · intro hnext
    exact ⟨w, wk, hw, t, ht, rfl, hnext⟩

/-- After a statement of a task its job is being marked succeeded or not, whatever it was. -/
theorem succeeding_resume (h : q.Custody) (hw : q.worker w = some wk) {job : Job}
    {p rest : Prog Statement.Res Empty Unit} (hj : wk.tasks[j]? = some ⟨job, p⟩)
    (h' : (q.advance w server (wk.resume j job rest)).Custody) (id : Uuid) :
    (q.advance w server (wk.resume j job rest)).Succeeding id ↔
      id ≠ job.id ∧ q.Succeeding id ∨ id = job.id ∧ succeedsNext rest = true := by
  have hmem := List.mem_of_getElem? hj
  have hw' : (q.advance w server (wk.resume j job rest)).worker w =
      some (wk.resume j job rest) := (worker_advance hw server _).trans (if_pos rfl)
  by_cases heq : id = job.id
  · subst heq
    by_cases hret : rest = .ret ()
    · subst hret
      have hnone : ¬(q.advance w server (wk.resume j job (.ret ()))).Succeeding job.id := by
        rw [Succeeding.of_advance hw]
        rintro (⟨t, ht, hid, -⟩ | ⟨w', wk₀, hne, hw₀, t, ht, hid, -⟩)
        · refine Worker.not_mem_held_resume hj (h.nodup w wk hw) (Worker.mem_held.mpr ?_)
          exact ⟨t.job, Worker.mem_jobs_of_task ht, hid⟩
        · exact hne (h.task_unique hw hmem hw₀ ht hid).1
      simp [hnone, succeedsNext]
    · simpa using succeeding_iff h' hw' (Worker.mem_resume hj hret)
  · simp only [ne_eq, heq, not_false_eq_true, true_and, false_and, or_false]
    rw [Succeeding.of_advance hw]
    constructor
    · rintro (⟨t, ht, rfl, hnext⟩ | ⟨w', wk₀, -, hw₀, hsucceeding⟩)
      · rcases Worker.mem_tasks_resume ht with ht | ⟨rfl, -⟩
        · exact ⟨w, wk, hw, t, ht, rfl, hnext⟩
        · exact absurd rfl heq
      · exact ⟨w', wk₀, hw₀, hsucceeding⟩
    · rintro ⟨w', wk₀, hw₀, t, ht, rfl, hnext⟩
      by_cases hww : w' = w
      · subst hww
        obtain rfl : wk = wk₀ := Option.some.inj (hw.symm.trans hw₀)
        have hne : t.job ≠ job := fun h ↦ heq (congrArg Job.id h)
        exact .inl ⟨t, Worker.mem_tasks_resume_of_ne hj ht hne, rfl, hnext⟩
      · exact .inr ⟨w', wk₀, hww, hw₀, t, ht, rfl, hnext⟩

/-! ## One step -/

theorem given_of_keepsChain (hkeep : q.keepsChain a = true) (job : Job) (backoff : Time)
    (hfails : q.fails a = some (job, backoff)) (hkind : job.kind = Cleanup.kind) :
    job.isSpent = false := by
  cases a with
  | run w j => simpa [keepsChain, hfails, hkind] using hkeep
  | _ => cases hfails

/-- A step that inserts no cleanup and marks nothing succeeded leaves the active ones. -/
theorem active_iff (hq : q.Custody) (hs : Steps cx q a q') (hkeep : q.keepsChain a = true)
    (hinserts : ∀ id, q.inserts a ≠ some (id, Cleanup.kind)) (hsucceeds : q.succeeds a = none)
    (id : Uuid) : q'.Active id ↔ q.Active id := by
  have hstep := row_step hq hs id
  constructor
  · intro hactive
    rcases hactive.of_step hstep with hold | ⟨-, hnew⟩
    · exact hold
    · exact absurd hnew (hinserts id)
  · exact Active.step hstep (given_of_keepsChain hkeep) (by simp [hsucceeds])

theorem Chain.keep (h : q.Chain last) (hactive : ∀ id, q'.Active id ↔ q.Active id)
    (hsucceeding : ∀ id, q'.Succeeding id ↔ q.Succeeding id)
    (hloop : ∀ w wk, q'.worker w = some wk → wk.loop = .scheduling true →
      (∃ id, q.Active id) ∨ ∃ wk₀, q.worker w = some wk₀ ∧ wk₀.loop = .scheduling true) :
    q'.Chain last := by
  constructor
  · intro id hid
    rw [hsucceeding]
    exact h.active id ((hactive id).mp hid)
  · intro id hid
    rw [hactive, hsucceeding]
    exact h.openEnd id hid
  · intro hnone
    obtain ⟨hinactive, hloops⟩ := h.idle hnone
    refine ⟨fun id hid ↦ hinactive id ((hactive id).mp hid), fun w wk hw hscheduling ↦ ?_⟩
    rcases hloop w wk hw hscheduling with ⟨id, hid⟩ | ⟨wk₀, hw₀, hold⟩
    · exact hinactive id hid
    · exact hloops w wk₀ hw₀ hold

theorem scheduling_advance (hw : q.worker w = some wk)
    (hloop : wk'.loop = .scheduling true → wk.loop = .scheduling true) (w' : ℕ) (wk₁ : Worker)
    (hw₁ : (q.advance w server wk').worker w' = some wk₁)
    (hscheduling : wk₁.loop = .scheduling true) :
    (∃ id, q.Active id) ∨ ∃ wk₀, q.worker w' = some wk₀ ∧ wk₀.loop = .scheduling true := by
  rw [worker_advance hw] at hw₁
  split at hw₁
  next heq =>
    cases hw₁
    exact .inr ⟨wk, heq ▸ hw, hloop hscheduling⟩
  next => exact .inr ⟨wk₁, hw₁, hscheduling⟩

/-- A new cleanup is the open end, if whatever was the end before is being marked succeeded. -/
theorem Chain.extend (h : q.Chain last) (hnew : q'.Active id) (hnot : ¬q'.Succeeding id)
    (hactive : ∀ id', q'.Active id' → q.Active id' ∨ id' = id)
    (hsucceeding : ∀ id', last = some id' ∨ q.Succeeding id' → q'.Succeeding id') :
    q'.Chain (some id) := by
  constructor
  · intro id' hid'
    rcases hactive id' hid' with hold | rfl
    · exact .inr (hsucceeding id' (h.active id' hold))
    · exact .inl rfl
  · rintro id' hid'
    obtain rfl := Option.some.inj hid'
    exact ⟨hnew, hnot⟩
  · rintro ⟨⟩

theorem Succeeding.row (hq : q.Custody) (h : q.Succeeding id) : q.row id ≠ none := by
  obtain ⟨w, wk, hw, t, ht, rfl, -⟩ := h
  obtain ⟨r, hr⟩ := hq.claimed w wk hw t.job (Worker.mem_jobs_of_task ht)
  simp [Queue.row, hr.row]

/-- An insert fails, and nothing changes, or there is a new row. -/
theorem run_enqueue (id : Uuid) (kind payload : String) (runAt now : Time)
    (jobs : Table JobRow.id) :
    (JobSql.enqueue id kind payload runAt).run now jobs = (none, jobs) ∨
      ∃ jobs', (JobSql.enqueue id kind payload runAt).run now jobs = (some (), jobs') ∧
        jobs.get? id = none ∧ jobs'.get? id = some (newJob id kind payload runAt now) := by
  cases hinsert : jobs.insert? (newJob id kind payload runAt now) with
  | none => exact .inl (by simp [JobSql.run, hinsert])
  | some jobs' =>
      obtain ⟨hnone, hget⟩ := Table.insert?_eq_some hinsert
      refine .inr ⟨jobs', by simp [JobSql.run, hinsert], hnone, ?_⟩
      simpa [newJob] using hget id

theorem Chain.schedule (hq : q.Custody) (h : q.Chain last) {tasks : List Task} {cancelled : Bool}
    (id : Uuid) (hw : q.worker w = some ⟨.scheduling false, tasks, cancelled⟩)
    (hs : Steps cx q (.schedule w id) (q.advance w
      (q.runJobs (.ensureScheduled false id Cleanup.kind)).server ⟨.waiting, tasks, cancelled⟩))
    (hnone : isScheduled Cleanup.kind q.server.db.jobs = false) :
    ∃ last', (q.advance w (q.runJobs (.ensureScheduled false id Cleanup.kind)).server
      ⟨.waiting, tasks, cancelled⟩).Chain last' ∧
        (last ≠ none ∨ q.schedules (.schedule w id) = true → last' ≠ none) := by
  have hinactive : ∀ id, ¬q.Active id := by
    intro id hid
    simp [isScheduled_iff.mpr ⟨id, hid⟩] at hnone
  obtain rfl : last = none := by
    cases last with
    | none => rfl
    | some id' => exact absurd (h.openEnd id' rfl).1 (hinactive id')
  have hsucceeding (id' : Uuid) : (q.advance w
      (q.runJobs (.ensureScheduled false id Cleanup.kind)).server
      ⟨.waiting, tasks, cancelled⟩).Succeeding id' ↔ q.Succeeding id' := by
    apply succeeding_advance hw
    intro id'
    exact Iff.rfl
  rcases run_enqueue id Cleanup.kind "\x7b\x7d" q.server.now q.server.now q.server.db.jobs with
    hrun | ⟨jobs', hrun, hfree, hrow⟩
  · have hjobs : (q.runJobs (.ensureScheduled false id Cleanup.kind)).server.db.jobs =
        q.server.db.jobs := congrArg Prod.snd hrun
    have hfails : q.schedules (.schedule w id) = false := by
      have hfst : ((JobSql.ensureScheduled false id Cleanup.kind).run
          q.server.now q.server.db.jobs).1 = none := congrArg Prod.fst hrun
      simp [schedules, hw, hfst]
    refine ⟨none, h.keep (fun id' ↦ ?_) hsucceeding ?_, by simp [hfails]⟩
    · unfold Active row
      rw [server_advance, hjobs]
    · exact scheduling_advance hw (by rintro ⟨⟩)
  · have hjobs : (q.runJobs (.ensureScheduled false id Cleanup.kind)).server.db.jobs = jobs' :=
      congrArg Prod.snd hrun
    refine ⟨some id, h.extend ?_ ?_ ?_ ?_, by simp⟩
    · apply Active.of_newJob
      unfold row
      rw [server_advance, hjobs]
      exact hrow
    · rw [hsucceeding]
      exact fun hsucc ↦ hsucc.row hq hfree
    · intro id' hid'
      rcases hid'.of_step (row_step hq hs id') with hold | ⟨-, hinserts⟩
      · exact .inl hold
      · simp only [inserts, hw, Option.some.injEq, Prod.mk.injEq, and_true] at hinserts
        exact .inr hinserts.symm
    · rintro id' (hlast | hsucc)
      · cases hlast
      · exact (hsucceeding id').mpr hsucc

/-- A cleanup enqueues its successor and is then marked succeeded. -/
theorem Chain.reEnqueue (hq : q.Custody) (h : q.Chain last) (hw : q.worker w = some wk)
    {job : Job} {id : Uuid} {payload : String} {runAt : Time} {query : Statement}
    (hquery : query = .sql (.jobs (.enqueue id Cleanup.kind payload runAt)))
    {p rest : Prog Statement.Res Empty Unit} (hj : wk.tasks[j]? = some ⟨job, p⟩)
    (hp : p.head? = some query) (hkind : job.kind = Cleanup.kind)
    (hs : Steps cx q (.run w j)
      (q.advance w ((machine cx).exec query q.server).2 (wk.resume j job rest)))
    (hrest : succeedsNext rest = ((JobSql.enqueue id Cleanup.kind payload runAt).run q.server.now
      q.server.db.jobs).1.isSome) : ∃ last',
    (q.advance w ((machine cx).exec query q.server).2 (wk.resume j job rest)).Chain last' ∧
      last' ≠ none := by
  subst hquery
  have hmem := List.mem_of_getElem? hj
  obtain ⟨r, hr⟩ := hq.claimed w wk hw job (Worker.mem_jobs_of_task hmem)
  have hactive : q.Active job.id := by
    refine ⟨r, hr.row, isActiveCleanup_eq_true.mpr ⟨?_, .inr hr.status⟩⟩
    exact (congrArg Job.kind hr.job).trans hkind
  have hnot : ¬q.Succeeding job.id := by
    rw [succeeding_iff hq hw hmem]
    cases p with
    | stmt query next =>
        cases hp
        simp [succeedsNext]
    | _ => cases hp
  obtain rfl : last = some job.id := (h.active job.id hactive).resolve_right hnot
  have hsucceeding := succeeding_resume hq hw hj (hq.step hs)
  rcases run_enqueue id Cleanup.kind payload runAt q.server.now q.server.db.jobs with
    hrun | ⟨jobs', hrun, hfree, hrow⟩
  · have hsame : succeedsNext rest = false := by simp [hrest, hrun]
    refine ⟨some job.id, h.keep (fun id' ↦ ?_) (fun id' ↦ ?_) ?_, by simp⟩
    · simp [Active, row, exec_sql, Sql.run, hrun]
    · rw [hsucceeding, hsame]
      by_cases heq : id' = job.id
      · simp [heq, hnot]
      · simp [heq]
    · exact scheduling_advance hw (by rw [Worker.loop_resume]; exact fun h ↦ h)
  · have hmarks : succeedsNext rest = true := by simp [hrest, hrun]
    have hne : id ≠ job.id := by
      rintro rfl
      cases hfree.symm.trans hr.row
    refine ⟨some id, h.extend ?_ ?_ ?_ ?_, by simp⟩
    · apply Active.of_newJob
      simp only [row, server_advance, exec_sql, Sql.run, hrun]
      exact hrow
    · rw [hsucceeding]
      rintro (⟨-, hsucc⟩ | ⟨heq, -⟩)
      · exact hsucc.row hq hfree
      · exact hne heq
    · intro id' hid'
      rcases hid'.of_step (row_step hq hs id') with hold | ⟨-, hinserts⟩
      · exact .inl hold
      · have hstatement : q.statement w j = p.head? := by simp [statement, hw, hj]
        simp only [inserts, hstatement, hp, Option.some.injEq, Prod.mk.injEq, and_true]
          at hinserts
        exact .inr hinserts.symm
    · intro id' hlast
      rw [hsucceeding]
      by_cases heq : id' = job.id
      · exact .inr ⟨heq, hmarks⟩
      · rcases hlast with hlast | hsucc
        · exact absurd (Option.some.inj hlast).symm heq
        · exact .inl ⟨heq, hsucc⟩

/-- A step of a worker that leaves the chain alone. -/
theorem Chain.advance (hq : q.Custody) (h : q.Chain last) (hw : q.worker w = some wk)
    (hs : Steps cx q a (q.advance w server wk')) (hkeep : q.keepsChain a = true)
    (hinserts : q.inserts a = none) (hsucceeds : q.succeeds a = none)
    (hsame : ∀ id, wk'.Succeeding id ↔ wk.Succeeding id)
    (hloop : wk'.loop = .scheduling true → wk.loop = .scheduling true) :
    (q.advance w server wk').Chain last :=
  h.keep (active_iff hq hs hkeep (by simp [hinserts]) hsucceeds) (succeeding_advance hw hsame)
    (scheduling_advance hw hloop)

theorem succeedsNext_of_isUpkeep {query : Statement} (h : query.isUpkeep = true)
    (next : Statement.Res query → Prog Statement.Res Empty Unit) :
    succeedsNext (.stmt query next) = false := by
  unfold succeedsNext
  split
  next heq =>
    cases heq
    cases h
  next => rfl

/-- A statement of a task that is neither the successor's insert nor `mark_succeeded`. -/
theorem Chain.resume (hq : q.Custody) (h : q.Chain last) (hw : q.worker w = some wk) {job : Job}
    {p rest : Prog Statement.Res Empty Unit} (hj : wk.tasks[j]? = some ⟨job, p⟩)
    (hs : Steps cx q a (q.advance w server (wk.resume j job rest)))
    (hkeep : q.keepsChain a = true) (hinserts : q.inserts a = none)
    (hsucceeds : q.succeeds a = none) (hp : succeedsNext p = false)
    (hrest : succeedsNext rest = false) :
    (q.advance w server (wk.resume j job rest)).Chain last := by
  refine h.keep (active_iff hq hs hkeep (by simp [hinserts]) hsucceeds) (fun id ↦ ?_) ?_
  · rw [succeeding_resume hq hw hj (hq.step hs), hrest]
    by_cases heq : id = job.id
    · subst heq
      have hnot : ¬q.Succeeding job.id := by
        rw [succeeding_iff hq hw (List.mem_of_getElem? hj), hp]
        simp
      simp [hnot]
    · simp [heq]
  · exact scheduling_advance hw (by rw [Worker.loop_resume]; exact fun h ↦ h)

/-- A finished cleanup drops out of the chain, whose open end is another. -/
theorem Chain.succeed (hq : q.Custody) (h : q.Chain last) (hw : q.worker w = some wk) {job : Job}
    {query : Statement}
    (hquery : query = .sql (.jobs (.markSucceeded job.id)))
    {p rest : Prog Statement.Res Empty Unit} (hj : wk.tasks[j]? = some ⟨job, p⟩)
    (hp : succeedsNext p = true) (hhead : p.head? = some query) (hrest : rest = .ret ())
    (hs : Steps cx q (.run w j)
      (q.advance w ((machine cx).exec query q.server).2 (wk.resume j job rest))) :
    (q.advance w ((machine cx).exec query q.server).2 (wk.resume j job rest)).Chain last := by
  subst hquery hrest
  have hmem := List.mem_of_getElem? hj
  obtain ⟨r, hr⟩ := hq.claimed w wk hw job (Worker.mem_jobs_of_task hmem)
  have hstatement : q.statement w j = p.head? := by simp [statement, hw, hj]
  have hmarked : q.Succeeding job.id := (succeeding_iff hq hw hmem).mpr hp
  have hsucceeding := succeeding_resume hq hw hj (hq.step hs)
  have hold : ∀ id, (q.advance w ((machine cx).exec (.sql (.jobs (.markSucceeded job.id)))
      q.server).2 (wk.resume j job (.ret ()))).Active id → q.Active id ∧ id ≠ job.id := by
    intro id hid
    constructor
    · rcases hid.of_step (row_step hq hs id) with hold | ⟨-, hinserts⟩
      · exact hold
      · simp [inserts, hstatement, hhead] at hinserts
    · rintro rfl
      obtain ⟨r', hr', hactive⟩ := hid
      obtain rfl := Option.some.inj ((get?_markSucceeded hr.row q.server.now).symm.trans hr')
      simp [isActiveCleanup_eq_true, JobRow.succeed] at hactive
  constructor
  · intro id hid
    obtain ⟨hactive, hne⟩ := hold id hid
    rw [hsucceeding]
    exact (h.active id hactive).imp_right fun hsucc ↦ .inl ⟨hne, hsucc⟩
  · intro id hlast
    obtain ⟨hactive, hnot⟩ := h.openEnd id hlast
    have hne : job.id ≠ id := by
      rintro rfl
      exact hnot hmarked
    constructor
    · refine Active.step (row_step hq hs id) ?_ ?_ hactive
      · intro job backoff hfails
        simp [fails, hstatement, hhead] at hfails
      · simpa [succeeds, hstatement, hhead] using hne
    · rw [hsucceeding]
      rintro (⟨-, hsucc⟩ | ⟨-, hnext⟩)
      · exact hnot hsucc
      · cases hnext
  · intro hlast
    obtain ⟨hinactive, hloops⟩ := h.idle hlast
    refine ⟨fun id hid ↦ hinactive id (hold id hid).1, fun w' wk' hw' hloop ↦ ?_⟩
    rcases scheduling_advance hw (by rw [Worker.loop_resume]; exact fun h ↦ h) w' wk' hw' hloop with
      ⟨id, hid⟩ | ⟨wk₀, hw₀, hscheduling⟩
    · exact hinactive id hid
    · exact hloops w' wk₀ hw₀ hscheduling

theorem Chain.run (hq : q.Custody) (h : q.Chain last) (hw : q.worker w = some wk) {job : Job}
    {query : Statement} {next : Statement.Res query → Prog Statement.Res Empty Unit}
    (hj : wk.tasks[j]? = some ⟨job, .stmt query next⟩)
    (hs : Steps cx q (.run w j) (q.advance w ((machine cx).exec query q.server).2
      (wk.resume j job (next ((machine cx).exec query q.server).1))))
    (hkeep : q.keepsChain (.run w j) = true) : ∃ last',
    (q.advance w ((machine cx).exec query q.server).2
      (wk.resume j job (next ((machine cx).exec query q.server).1))).Chain last' ∧
        (last ≠ none → last' ≠ none) := by
  have hworks : Works job (.stmt query next) := hq.works w wk hw _ (List.mem_of_getElem? hj)
  have hstatement := statement_eq hw hj
  cases hworks with
  | succeed hret =>
      exact ⟨last, h.succeed hq hw rfl hj rfl rfl (hret _) hs, fun h ↦ h⟩
  | giveUp hret =>
      refine ⟨last, h.resume hq hw hj hs hkeep ?_ ?_ rfl ?_, fun h ↦ h⟩
      · simp [inserts, hstatement]
      · simp [succeeds, hstatement]
      · rw [hret]
        rfl
  | reEnqueue hkind hrest hphase =>
      obtain ⟨last', hchain, hne⟩ := h.reEnqueue hq hw rfl hj rfl hkind hs (hphase _)
      exact ⟨last', hchain, fun _ ↦ hne⟩
  | upkeep hupkeep hrest hphase =>
      refine ⟨last, h.resume hq hw hj hs hkeep ?_ ?_ (succeedsNext_of_isUpkeep hupkeep next)
        (hphase _), fun h ↦ h⟩
      · simp only [inserts, hstatement]
        split
        next heq =>
          cases heq
          cases hupkeep
        next => rfl
      · simp only [succeeds, hstatement]
        split
        next heq =>
          cases heq
          cases hupkeep
        next => rfl

theorem Chain.fault (hq : q.Custody) (h : q.Chain last) (hw : q.worker w = some wk) {job : Job}
    {query : Statement} {next : Statement.Res query → Prog Statement.Res Empty Unit}
    (hj : wk.tasks[j]? = some ⟨job, .stmt query next⟩) {r : Statement.Res query}
    (hr : (machine cx).fault query = some r)
    (hs : Steps cx q (.fault w j) (q.advance w q.server (wk.resume j job (next r))))
    (hkeep : q.keepsChain (.fault w j) = true) :
    (q.advance w q.server (wk.resume j job (next r))).Chain last := by
  have hworks : Works job (.stmt query next) := hq.works w wk hw _ (List.mem_of_getElem? hj)
  cases hworks with
  | succeed => simp [keepsChain, statement_eq hw hj] at hkeep
  | giveUp hret =>
      apply h.resume hq hw hj hs hkeep rfl rfl rfl
      rw [hret]
      rfl
  | reEnqueue hkind hrest hphase =>
      obtain rfl : none = r := Option.some.inj hr
      exact h.resume hq hw hj hs hkeep rfl rfl rfl (hphase none)
  | upkeep hupkeep hrest hphase =>
      exact h.resume hq hw hj hs hkeep rfl rfl (succeedsNext_of_isUpkeep hupkeep next) (hphase r)

/-- The chain holds after any careful step, and has an end once it was scheduled. -/
theorem Chain.step (hq : q.Custody) (h : q.Chain last) (hs : Steps cx q a q')
    (hown : q.ownSchedule a = true) (hkeep : q.keepsChain a = true) :
    ∃ last', q'.Chain last' ∧ (last ≠ none ∨ q.schedules a = true → last' ≠ none) := by
  have hs' := hs
  cases hs' with
  | tick ticks =>
      exact ⟨last, h.keep (fun _ ↦ Iff.rfl) (fun _ ↦ Iff.rfl) fun w wk hw hloop ↦
        .inr ⟨wk, hw, hloop⟩,
        by simp [schedules]⟩
  | enqueue id kind payload runAt =>
      have hkind : kind ≠ Cleanup.kind := of_decide_eq_true hown
      refine ⟨last, h.keep (active_iff hq hs hkeep ?_ rfl) (fun _ ↦ Iff.rfl)
        fun w wk hw hloop ↦ .inr ⟨wk, hw, hloop⟩, by simp [schedules]⟩
      intro id' hinserts
      exact hkind (congrArg Prod.snd (Option.some.inj hinserts))
  | spawn =>
      refine ⟨last, h.keep (fun _ ↦ Iff.rfl) (fun id ↦ ⟨?_, ?_⟩) fun w wk hw hloop ↦ ?_,
        by simp [schedules]⟩
      · rintro ⟨w, wk, hw, t, ht, hsucc⟩
        rcases worker_spawn hw with hw | rfl
        · exact ⟨w, wk, hw, t, ht, hsucc⟩
        · cases ht
      · rintro ⟨w, wk, hw, hsucc⟩
        exact ⟨w, wk, worker_spawn_of hw, hsucc⟩
      · rcases worker_spawn hw with hw | rfl
        · exact .inr ⟨wk, hw, hloop⟩
        · cases hloop
  | @stop w wk hw =>
      have htasks : ∀ t ∈ wk.tasks, succeedsNext t.rest = false := by
        simpa [keepsChain, hw] using hkeep
      refine ⟨last, h.keep (fun _ ↦ Iff.rfl) (fun id ↦ ⟨?_, ?_⟩) fun w' wk' hw' hloop ↦ ?_,
        by simp [schedules]⟩
      · rintro ⟨w', wk', hw', hsucc⟩
        rw [worker_setWorker hw] at hw'
        split at hw'
        · cases hw'
        · exact ⟨w', wk', hw', hsucc⟩
      · rintro ⟨w', wk', hw', t, ht, hid, hnext⟩
        refine ⟨w', wk', ?_, t, ht, hid, hnext⟩
        rw [worker_setWorker hw, if_neg, hw']
        rintro rfl
        obtain rfl : wk = wk' := Option.some.inj (hw.symm.trans hw')
        simp [htasks t ht] at hnext
      · rw [worker_setWorker hw] at hw'
        split at hw'
        · cases hw'
        · exact .inr ⟨wk', hw', hloop⟩
  | @lookUp w tasks cancelled hw =>
      refine ⟨last, h.keep (active_iff hq hs hkeep (by simp [inserts]) rfl)
        (succeeding_advance hw fun _ ↦ Iff.rfl) fun w' wk' hw' hloop ↦ ?_, by simp [schedules]⟩
      rw [worker_advance hw] at hw'
      split at hw'
      next =>
        cases hw'
        exact .inl (isScheduled_iff.mp (Loop.scheduling.inj hloop))
      next => exact .inr ⟨wk', hw', hloop⟩
  | @schedule w scheduled tasks cancelled id hw =>
      cases scheduled with
      | true =>
          have hchain := h.advance hq hw hs hkeep (by simp [inserts, hw]) rfl (fun _ ↦ Iff.rfl)
            (by rintro ⟨⟩)
          refine ⟨last, hchain, fun _ hnone ↦ ?_⟩
          exact (h.idle hnone).2 w _ hw rfl
      | false => exact h.schedule hq id hw hs (by simpa [keepsChain, hw] using hkeep)
  | scheduleFails hw | claim locked hw | claimFails hw | handed hw =>
      exact ⟨last, h.advance hq hw hs hkeep rfl rfl (fun _ ↦ Iff.rfl) (by rintro ⟨⟩),
        by simp [schedules]⟩
  | @wake w tasks cancelled hw =>
      refine ⟨last, h.advance hq hw hs hkeep rfl rfl (fun _ ↦ Iff.rfl) ?_, by simp [schedules]⟩
      cases cancelled <;> rintro ⟨⟩
  | shutdown hw =>
      exact ⟨last, h.advance hq hw hs hkeep rfl rfl (fun _ ↦ Iff.rfl) (fun h ↦ h),
        by simp [schedules]⟩
  | @hand w job jobs tasks cancelled hw hpermit =>
      refine ⟨last, h.advance hq hw hs hkeep rfl rfl (fun id ↦ ?_) (by rintro ⟨⟩),
        by simp [schedules]⟩
      have hstart := (works_process cx job).2
      simp [Worker.Succeeding, hstart]
  | run hw hj =>
      obtain ⟨last', hchain, hne⟩ := h.run hq hw hj hs hkeep
      exact ⟨last', hchain, by simpa [schedules] using hne⟩
  | fault hw hj r hr => exact ⟨last, h.fault hq hw hj hr hs hkeep, by simp [schedules]⟩

theorem Chain.cleanups_eq_one (h : q.Chain (some id)) (hquiet : q.Quiet) : q.cleanups = 1 := by
  have hnone : ∀ id, ¬q.Succeeding id := by
    rintro id ⟨w, wk, hw, t, ht, -⟩
    simp [hquiet w wk hw] at ht
  have hkey : ∀ r ∈ q.server.db.jobs, r.isActiveCleanup =
      (decide (r.id = id) && r.isActiveCleanup) := by
    intro r hr
    cases hactive : r.isActiveCleanup with
    | false => simp
    | true =>
        have hlast := (h.active r.id ⟨r, Table.get?_of_mem hr, hactive⟩).resolve_right (hnone r.id)
        simp [Option.some.inj hlast]
  obtain ⟨r, hr, hactive⟩ := (h.openEnd id rfl).1
  have hget : q.server.db.jobs.get? id = some r := hr
  calc
    q.cleanups = q.server.db.jobs.countWhere fun r ↦ decide (r.id = id) && r.isActiveCleanup :=
      List.countP_congr fun r hr ↦ by rw [← hkey r hr]
    _ = 1 := by
      rw [Table.countWhere_key, hget]
      simp [hactive]

end Step

end Queue

/-! ## All runs -/

/-- A run whose steps all keep the chain has one cleanup scheduled, whenever it is quiet. -/
theorem one_cleanup_scheduled {cx : Context} {s q : Queue} {h : Queue.History}
    (hrun : (Queue.system cx).Trace
      (fun q a _ ↦ (q.ownSchedule a && q.keepsChain a) = true) s h q)
    (hnone : s.workers = []) (hempty : s.server.db.jobs = .empty)
    (hscheduled : ∃ e ∈ h, e.1.schedules e.2 = true) (hquiet : q.Quiet) : q.cleanups = 1 := by
  have hinv : q.Custody ∧ ∃ last, q.Chain last ∧
      ((∃ e ∈ h, e.1.schedules e.2 = true) → last ≠ none) := by
    refine hrun.invariant (I := fun h q ↦ q.Custody ∧ ∃ last, q.Chain last ∧
      ((∃ e ∈ h, e.1.schedules e.2 = true) → last ≠ none)) ?_ ?_
    · refine ⟨.start hnone, none, ⟨?_, by simp, fun _ ↦ ⟨?_, ?_⟩⟩, by simp⟩
      · rintro id ⟨r, hr, -⟩
        simp [Queue.row, hempty] at hr
      · rintro id ⟨r, hr, -⟩
        simp [Queue.row, hempty] at hr
      · intro w wk hw
        simp [Queue.worker, hnone] at hw
    · rintro h q a q' - hcareful hp ⟨hcustody, last, hchain, hended⟩
      obtain ⟨hown, hkeep⟩ := (Bool.and_eq_true _ _).mp hcareful
      have hs := Queue.steps_of_perform hp
      obtain ⟨last', hchain', hended'⟩ := hchain.step hcustody hs hown hkeep
      refine ⟨hcustody.step hs, last', hchain', ?_⟩
      rintro ⟨e, he, hschedules⟩
      rcases List.mem_cons.mp he with rfl | he
      · exact hended' (.inr hschedules)
      · exact hended' (.inl (hended ⟨e, he, hschedules⟩))
  obtain ⟨-, last, hchain, hended⟩ := hinv
  cases last with
  | none => exact absurd rfl (hended hscheduled)
  | some id => exact hchain.cleanups_eq_one hquiet

namespace Queue

/-- The first cleanup is scheduled, runs and enqueues the next one. -/
def cleanedUp : List Action :=
  [.spawn, .lookUp 0, .schedule 0 7, .wake 0, .claim 0 [], .hand 0, .hand 0] ++
    List.replicate 14 (.run 0 0)

/-- Two processes start at the same time. -/
def startedTwice : List Action :=
  [.spawn, .spawn, .lookUp 0, .lookUp 1, .schedule 0 7, .schedule 1 8]

def quiet (q : Queue) : Bool := q.workers.all fun o ↦ o.all fun wk ↦ wk.tasks.isEmpty

theorem quiet_of_quiet {q : Queue} (h : q.quiet = true) : q.Quiet := by
  intro w wk hw
  have hmem : some wk ∈ q.workers := List.mem_of_getElem? (Option.join_eq_some_iff.mp hw)
  have hempty := List.all_eq_true.mp h _ hmem
  simpa using hempty

end Queue

theorem one_cleanup_scheduled_cleaned_up :
    ∃ h q, (Queue.system .sample).Trace
      (fun q a _ ↦ (q.ownSchedule a && q.keepsChain a) = true) Queue.empty h q ∧
        q.server.db.jobs.rows.map JobRow.status = [.succeeded, .pending] ∧ q.cleanups = 1 := by
  obtain ⟨r, hran, htest⟩ : ∃ r : Queue.History × Queue, (Queue.system .sample).Trace
      (fun q a _ ↦ (q.ownSchedule a && q.keepsChain a) = true) Queue.empty r.1 r.2 ∧
        (decide (r.2.server.db.jobs.rows.map JobRow.status = [.succeeded, .pending]) &&
          (r.1.any (fun e ↦ e.1.schedules e.2) && r.2.quiet)) = true :=
    System.Trace.of_schedule Queue.cleanedUp _ (by decide)
  simp only [Bool.and_eq_true, decide_eq_true_eq, List.any_eq_true] at htest
  obtain ⟨hrows, hscheduled, hquiet⟩ := htest
  exact ⟨r.1, r.2, hran, hrows, one_cleanup_scheduled hran rfl rfl hscheduled
    (Queue.quiet_of_quiet hquiet)⟩

/-- Two workers that start at once both find nothing scheduled, and both insert. -/
theorem cleanup_scheduled_twice :
    ¬∀ (cx : Context) (s q : Queue) (h : Queue.History),
      (Queue.system cx).Trace (fun q a _ ↦ q.ownSchedule a = true) s h q → s.workers = [] →
        s.server.db.jobs = .empty → (∃ e ∈ h, e.1.schedules e.2 = true) → q.Quiet →
          q.cleanups = 1 := by
  intro h
  obtain ⟨r, hran, htest⟩ : ∃ r : Queue.History × Queue, (Queue.system .sample).Trace
      (fun q a _ ↦ q.ownSchedule a = true) Queue.empty r.1 r.2 ∧
        (decide (r.2.cleanups = 2) && (r.1.any (fun e ↦ e.1.schedules e.2) && r.2.quiet)) = true :=
    System.Trace.of_schedule Queue.startedTwice _ (by decide)
  simp only [Bool.and_eq_true, decide_eq_true_eq, List.any_eq_true] at htest
  obtain ⟨htwo, hscheduled, hquiet⟩ := htest
  have hone := h .sample _ r.2 r.1 hran rfl rfl hscheduled (Queue.quiet_of_quiet hquiet)
  simp [htwo] at hone

end ApiStarter
