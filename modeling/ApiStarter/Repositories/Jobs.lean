import ApiStarter.Schema

/-!
# The jobs table

The statements of `infra/jobs/repository.rs` and the pruning of
`infra/jobs/cleanup.rs`.
-/

namespace ApiStarter

open Relational

def defaultMaxAttempts : ℤ := 5

/-- What a worker holds of a claimed row. -/
structure Job where
  id : Uuid
  kind : String
  payload : String
  attempts : ℤ
  maxAttempts : ℤ
  deriving DecidableEq

def JobRow.job (r : JobRow) : Job := ⟨r.id, r.kind, r.payload, r.attempts, r.maxAttempts⟩

inductive JobSql
  | enqueue (id : Uuid) (kind payload : String) (runAt : Time)
  /-- `INSERT … SELECT … WHERE NOT EXISTS`, where `scheduled` is what `EXISTS` says of the
  snapshot the statement works on. -/
  | ensureScheduled (scheduled : Bool) (id : Uuid) (kind : String)
  /-- `locked` are the rows another transaction has locked, which `SKIP LOCKED` passes over. -/
  | claimBatch (limit : ℕ) (locked : List Uuid)
  | markSucceeded (id : Uuid)
  | rescheduleOrKill (job : Job) (error : String) (backoff : Time)
  | prune (status : JobStatus) (cutoff : Time)

@[reducible] def JobSql.Res : JobSql → Type
  | .enqueue .. => Unit
  | .ensureScheduled .. => Unit
  | .claimBatch .. => List Job
  | .markSucceeded _ => Unit
  | .rescheduleOrKill .. => Bool
  | .prune .. => Unit

def newJob (id : Uuid) (kind payload : String) (runAt now : Time) : JobRow where
  id := id
  kind := kind
  payload := payload
  status := .pending
  attempts := 0
  maxAttempts := defaultMaxAttempts
  runAt := runAt
  lockedAt := none
  lastError := none
  createdAt := now
  updatedAt := now

/-- `status IN ('pending', 'running')` -/
def JobRow.isActive (r : JobRow) : Bool :=
  decide (r.status = .pending) || decide (r.status = .running)

/-- `EXISTS (SELECT 1 FROM jobs WHERE kind = $2 AND status IN ('pending', 'running'))` -/
def isScheduled (kind : String) (jobs : Table JobRow.id) : Bool :=
  decide (0 < jobs.countWhere fun r ↦ decide (r.kind = kind) && r.isActive)

/-- `status = 'pending' AND run_at <= now` -/
def JobRow.isDue (r : JobRow) (now : Time) : Bool :=
  decide (r.status = .pending) && decide (r.runAt ≤ now)

def JobRow.markRunning (now : Time) (r : JobRow) : JobRow :=
  { r with status := .running, lockedAt := some now, updatedAt := now }

def JobRow.succeed (now : Time) (r : JobRow) : JobRow :=
  { r with status := .succeeded, updatedAt := now }

/-- `attempts + 1 >= max_attempts`, of the job as it was claimed. -/
def Job.isSpent (job : Job) : Bool := decide (job.attempts + 1 ≥ job.maxAttempts)

def JobRow.failedOnce (job : Job) (error : String) (backoff now : Time) (r : JobRow) : JobRow :=
  { r with
    status := if job.isSpent then .dead else .pending
    attempts := job.attempts + 1
    runAt := now + backoff
    lockedAt := none
    lastError := some error
    updatedAt := now }

section Simp

variable (now : Time) (r : JobRow)

@[simp] theorem JobRow.id_markRunning : (r.markRunning now).id = r.id := rfl
@[simp] theorem JobRow.id_succeed : (r.succeed now).id = r.id := rfl
@[simp] theorem JobRow.id_failedOnce (job : Job) (error : String) (backoff : Time) :
    (r.failedOnce job error backoff now).id = r.id := rfl

end Simp

/-- The due rows `claim_batch` takes, the longest due first. -/
def dueJobs (now : Time) (limit : ℕ) (locked : List Uuid) (jobs : Table JobRow.id) :
    List JobRow :=
  (Table.orderBy JobRow.runAt
    (jobs.selectWhere fun r ↦ r.isDue now && decide (r.id ∉ locked))).take limit

def JobSql.run (now : Time) (jobs : Table JobRow.id) :
    (q : JobSql) → Option q.Res × Table JobRow.id
  | .enqueue id kind payload runAt =>
      match jobs.insert? (newJob id kind payload runAt now) with
      | none => (none, jobs)
      | some jobs' => (some (), jobs')
  | .ensureScheduled scheduled id kind =>
      if scheduled then (some (), jobs)
      else match jobs.insert? (newJob id kind "\x7b\x7d" now now) with
        | none => (none, jobs)
        | some jobs' => (some (), jobs')
  | .claimBatch limit locked =>
      let claimed := dueJobs now limit locked jobs
      (some (claimed.map JobRow.job),
        jobs.updateWhere (fun r ↦ decide (r.id ∈ claimed.map JobRow.id)) (JobRow.markRunning now)
          (JobRow.id_markRunning now))
  | .markSucceeded id =>
      (some (), jobs.updateWhere (fun r ↦ decide (r.id = id)) (JobRow.succeed now)
        (JobRow.id_succeed now))
  | .rescheduleOrKill job error backoff =>
      (some job.isSpent, jobs.updateWhere (fun r ↦ decide (r.id = job.id))
        (JobRow.failedOnce job error backoff now) fun r ↦ r.id_failedOnce now job error backoff)
  | .prune status cutoff =>
      (some (), jobs.deleteWhere fun r ↦ decide (r.status = status) &&
        decide (r.updatedAt < cutoff))

end ApiStarter
